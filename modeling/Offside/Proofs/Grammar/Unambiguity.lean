import Offside.Proofs.Grammar.Phrase

/-!
# Unambiguity — a token list has one derivation tree

The grammar can be read with one token of lookahead.  This file defines

* `Symbol.starts s k`: a phrase of `s` may start with the token `k`;
* `Symbol.stops s k`: the token `k` does not continue a phrase of `s`;

and proves that two trees of one symbol that derive the same tokens, up to a token that stops them,
are the same tree and leave the same tokens (`Phrase.determined`).
-/

namespace Offside
namespace Grammar

/-! ## Lookahead -/

/-- How loosely a token binds what stands before it. Tokens that continue no expression come
last. -/
def looseness : Kind → Nat
  | .punct .dot | .punct .leftParen => 0
  | .punct .star | .punct .slash => 1
  | .punct .plus | .punct .minus => 2
  | .punct .less | .punct .lessEqual | .punct .greater | .punct .greaterEqual => 3
  | .punct .equal | .punct .notEqual => 3
  | .keyword .andKw => 4
  | .keyword .orKw => 5
  | _ => 6

namespace Rung

/-- The looseness of the loosest token that an expression of a rung takes. -/
def rank : Rung → Nat
  | .primary | .factor => 0
  | .chain .product => 1
  | .chain .sum => 2
  | .comparison | .inversion => 3
  | .chain .and => 4
  | .chain .or => 5

def startsPrimary : Kind → Bool
  | .integer _ | .string _ | .identifier _ => true
  | .keyword word => word = .trueKw || word = .falseKw || word = .noneKw
  | .punct mark => mark = .leftParen
  | .newline | .indent | .dedent | .endOfInput => false

def startsFactor (k : Kind) : Bool :=
  startsPrimary k || k = .punct .plus || k = .punct .minus

def starts : Rung → Kind → Bool
  | .primary, k => startsPrimary k
  | .factor, k => startsFactor k
  | .chain .product, k => startsFactor k
  | .chain .sum, k => startsFactor k
  | .comparison, k => startsFactor k
  | _, k => startsFactor k || k = .keyword .notKw

theorem starts_chain {l : Level} {k : Kind} (h : l.operand.starts k = true) :
    (Rung.chain l).starts k = true := by
  cases l with
  | or => exact h
  | and => exact h
  | sum => exact h
  | product => exact h

theorem starts_inversion {k : Kind} (h : Rung.comparison.starts k = true) :
    Rung.inversion.starts k = true := by
  have hfactor : startsFactor k = true := h
  simp [starts, hfactor]

theorem starts_factor {k : Kind} (h : Rung.primary.starts k = true) :
    Rung.factor.starts k = true := by
  have hprimary : startsPrimary k = true := h
  simp [starts, startsFactor, hprimary]

theorem starts_primary_literal (v : Literal) : Rung.primary.starts v.kind = true := by
  cases v with
  | integer n => rfl
  | string s => rfl
  | truth b => cases b <;> rfl
  | none => rfl

end Rung

theorem Level.rank_operand_lt (l : Level) : l.operand.rank < (Rung.chain l).rank := by
  cases l <;> decide

theorem Joint.looseness_kind {l : Level} (j : Joint l) :
    looseness j.kind = (Rung.chain l).rank := by
  cases j <;> rfl

theorem looseness_relationMark (op : Relation) : looseness (.punct (relationMark op)) = 3 := by
  cases op <;> rfl

namespace Symbol

@[simp] def nullable : Symbol → Bool
  | .many _ | .option _ => true
  | .after _ _ => false
  | _ => false

@[simp] def starts : Symbol → Kind → Bool
  | .name, .identifier _ => true
  | .name, _ => false
  | .path, .identifier _ => true
  | .path, _ => false
  | .many s, k => s.starts k
  | .option s, k => s.starts k
  | .after p _, k => k = .punct p
  | .list _, k => k = .punct .leftParen
  | .expr r, k => r.starts k
  | .link l, k => looseness k = (Rung.chain l).rank
  | .relation, k => looseness k = 3
  | .application, k => k = .punct .leftParen
  | .call, k => k = .punct .dot
  | .simple, .identifier _ => true
  | .simple, k => k = .keyword .returnKw || k = .keyword .printKw
  | .block, k => k = .newline
  | .statement, .identifier _ => true
  | .statement, k =>
      k = .keyword .returnKw || k = .keyword .printKw || k = .keyword .ifKw || k = .keyword .classKw
  | .alternative, k => k = .keyword .elseKw
  | .base, k => k = .punct .leftParen
  | .method, k => k = .keyword .defKw

@[simp] def stops : Symbol → Kind → Bool
  | .path, k => k ≠ .punct .dot
  | .many s, k => !s.starts k && s.stops k
  | .option s, k => !s.starts k && s.stops k
  | .after _ s, k => s.stops k
  | .expr r, k => r.rank < looseness k
  | .link l, k => l.operand.rank < looseness k
  | .relation, k => (Rung.chain .sum).rank < looseness k
  | .application, k => k ≠ .punct .dot
  | .simple, k => k = .newline
  | .statement, k => k ≠ .keyword .elseKw
  | _, _ => true

/-- One token of lookahead tells whether a repetition, an option or a list goes on. -/
def Predictive : Symbol → Prop
  | .many s => s.Predictive ∧ s.nullable = false ∧ ∀ k, s.starts k = true → s.stops k = true
  | .option s => s.Predictive ∧ s.nullable = false
  | .after _ s => s.Predictive
  | .list s =>
      s.Predictive ∧ s.nullable = false ∧ s.starts (.punct .rightParen) = false
        ∧ s.stops (.punct .comma) = true ∧ s.stops (.punct .rightParen) = true
  | _ => True

/-- What may follow the phrases of `t` stops those of `s` before it, and so does what starts
them. -/
structure Precedes (s t : Symbol) : Prop where
  starts : ∀ k, t.starts k = true → s.stops k = true
  stops : t.nullable = true → ∀ k, t.stops k = true → s.stops k = true

end Symbol

/-! ## First tokens -/

/-- Tokens that start as a phrase of `s` does, whatever follows them, or that are none where `s`
allows it. -/
def Heads (s : Symbol) (ks : List Kind) : Prop :=
  ∀ k r, ∃ k₁ r₁, ks ++ k :: r = k₁ :: r₁
    ∧ (s.starts k₁ = true ∨ s.nullable = true ∧ k₁ = k)

namespace Heads

variable {s t u : Symbol}

theorem nil (h : s.nullable = true) : Heads s [] :=
  fun k r => ⟨k, r, rfl, .inr ⟨h, rfl⟩⟩

theorem cons {k : Kind} {ks : List Kind} (h : s.starts k = true) : Heads s (k :: ks) :=
  fun k' r => ⟨k, ks ++ k' :: r, rfl, .inl h⟩

theorem mono {ks : List Kind} (hks : Heads s ks)
    (hstart : ∀ k, s.starts k = true → t.starts k = true)
    (hnull : s.nullable = true → t.nullable = true) : Heads t ks := by
  intro k r
  rcases hks k r with ⟨k₁, r₁, h₁, hk₁ | ⟨hs, hk₁⟩⟩
  · exact ⟨k₁, r₁, h₁, .inl (hstart k₁ hk₁)⟩
  · exact ⟨k₁, r₁, h₁, .inr ⟨hnull hs, hk₁⟩⟩

/-- A phrase that takes a token starts what it stands in front of. -/
theorem append {xs ys : List Kind} (hxs : Heads s xs) (hys : Heads u ys)
    (hs : s.nullable = false) (hstart : ∀ k, s.starts k = true → t.starts k = true) :
    Heads t (xs ++ ys) := by
  intro k r
  rcases hys k r with ⟨k₂, r₂, h₂, _⟩
  rcases hxs k₂ r₂ with ⟨k₁, r₁, h₁, hk₁ | ⟨hnull, _⟩⟩
  · refine ⟨k₁, r₁, ?_, .inl (hstart k₁ hk₁)⟩
    rw [List.append_assoc, h₂, h₁]
  · rw [hs] at hnull
    cases hnull

theorem append_many {xs ys : List Kind} (hxs : Heads s xs) (hys : Heads (.many s) ys) :
    Heads (.many s) (xs ++ ys) := by
  intro k r
  rcases hys k r with ⟨k₂, r₂, h₂, hk₂⟩
  rcases hxs k₂ r₂ with ⟨k₁, r₁, h₁, hk₁ | ⟨_, rfl⟩⟩
  · exact ⟨k₁, r₁, by rw [List.append_assoc, h₂, h₁], .inl hk₁⟩
  · exact ⟨k₁, r₁, by rw [List.append_assoc, h₂, h₁], hk₂⟩

end Heads

namespace Symbol

theorem starts_path {k : Kind} (h : Symbol.name.starts k = true) : Symbol.path.starts k = true := by
  cases k <;> simp [starts] at h ⊢

theorem starts_primary {k : Kind} (h : Symbol.path.starts k = true) :
    (Symbol.expr .primary).starts k = true := by
  cases k <;> simp [starts, Rung.starts, Rung.startsPrimary] at h ⊢

theorem starts_simple {k : Kind} (h : Symbol.path.starts k = true) :
    Symbol.simple.starts k = true := by
  cases k <;> simp [starts] at h ⊢

theorem starts_statement {k : Kind} (h : Symbol.simple.starts k = true) :
    Symbol.statement.starts k = true := by
  cases k <;> simp [starts] at h ⊢
  rcases h with h | h <;> simp [h]

end Symbol

/-- The tokens of a tree start as its symbol says. -/
theorem Phrase.heads {s : Symbol} (d : Phrase s) : Heads s d.kinds := by
  induction d with
  | name n => exact .cons rfl
  | path first rest ihFirst ihRest => exact ihFirst.append ihRest rfl fun _ => Symbol.starts_path
  | done => exact .nil rfl
  | more x xs ihX ihXs => exact ihX.append_many ihXs
  | absent => exact .nil rfl
  | present x ihX => exact ihX.mono (fun _ h => h) fun _ => rfl
  | after p x => exact .cons (by simp [Symbol.starts])
  | noItems => exact .cons (by simp [Symbol.starts])
  | items first rest => exact .cons (by simp [Symbol.starts])
  | chain first rest ihFirst ihRest =>
      exact ihFirst.append ihRest rfl fun _ => Rung.starts_chain
  | link j right => exact .cons (by simp [Symbol.starts, j.looseness_kind])
  | not x => exact .cons (by simp [Symbol.starts, Rung.starts])
  | compared x ihX => exact ihX.mono (fun _ => Rung.starts_inversion) nofun
  | comparison left right ihLeft ihRight => exact ihLeft.append ihRight rfl fun _ h => h
  | relation op right => exact .cons (by simp [Symbol.starts, looseness_relationMark])
  | signed sign x =>
      refine .cons ?_
      cases sign <;> simp [Symbol.starts, Rung.starts, Rung.startsFactor, signMark]
  | unsigned x ihX => exact ihX.mono (fun _ => Rung.starts_factor) nofun
  | literal v => exact .cons (Rung.starts_primary_literal v)
  | reference p applied ihP ihApplied =>
      exact ihP.append ihApplied rfl fun _ => Symbol.starts_primary
  | group x calls => exact .cons rfl
  | application args calls ihArgs ihCalls => exact ihArgs.append ihCalls rfl fun _ h => h
  | call m args => exact .cons (by simp [Symbol.starts])
  | ret x => exact .cons (by simp [Symbol.starts])
  | print args => exact .cons (by simp [Symbol.starts])
  | assign target value ihTarget =>
      exact ihTarget.append (.cons (s := .after .assign .expression) (by simp [Symbol.starts])) rfl
        fun _ => Symbol.starts_simple
  | apply callee applied ihCallee ihApplied =>
      exact ihCallee.append ihApplied rfl fun _ => Symbol.starts_simple
  | block body => exact .cons (by simp [Symbol.starts])
  | simple x ihX =>
      exact ihX.append (.cons (s := .block) (by simp [Symbol.starts])) rfl
        fun _ => Symbol.starts_statement
  | conditional c t e => exact .cons (by simp [Symbol.starts])
  | alternative body => exact .cons (by simp [Symbol.starts])
  | classDefinition n parent methods => exact .cons (by simp [Symbol.starts])
  | base n => exact .cons (by simp [Symbol.starts])
  | method n params body => exact .cons (by simp [Symbol.starts])

/-- Two phrases in a row start as the first one does, if that takes a token. -/
theorem Phrase.heads_append {s t : Symbol} (x : Phrase s) (y : Phrase t)
    (hs : s.nullable = false) : Heads s (x.kinds ++ y.kinds) :=
  x.heads.append y.heads hs fun _ h => h

/-- A call goes on with its arguments after the path. -/
theorem Phrase.exists_leftParen (d : Phrase .application) (k : Kind) (r : List Kind) :
    ∃ r₁, d.kinds ++ k :: r = .punct .leftParen :: r₁ := by
  rcases d.heads k r with ⟨k₁, r₁, h₁, hstart | ⟨hnull, _⟩⟩
  · have hk₁ : k₁ = .punct .leftParen := of_decide_eq_true hstart
    exact ⟨r₁, hk₁ ▸ h₁⟩
  · cases hnull

/-! ## Unique decomposition -/

/-- Whatever tree of the same symbol derives the same tokens is this tree, and leaves the same
tokens. -/
def Determined {s : Symbol} (d : Phrase s) : Prop :=
  ∀ (d' : Phrase s) (k k' : Kind) (r r' : List Kind), s.stops k = true → s.stops k' = true →
    d.kinds ++ k :: r = d'.kinds ++ k' :: r' → d = d' ∧ k = k' ∧ r = r'

/-- The token after a phrase stops the one before it. -/
theorem Symbol.Precedes.stops_head {s t : Symbol} (h : Precedes s t) (d : Phrase t) {k : Kind}
    {r : List Kind} (hk : t.stops k = true) :
    ∃ k₁ r₁, d.kinds ++ k :: r = k₁ :: r₁ ∧ s.stops k₁ = true := by
  rcases d.heads k r with ⟨k₁, r₁, h₁, hstart | ⟨hnull, rfl⟩⟩
  · exact ⟨k₁, r₁, h₁, h.starts k₁ hstart⟩
  · exact ⟨k₁, r₁, h₁, h.stops hnull k₁ hk⟩

/-- Two phrases in a row are determined one after the other. -/
theorem Determined.append {s t : Symbol} {x x' : Phrase s} {y y' : Phrase t} {k k' : Kind}
    {r r' : List Kind} (hx : Determined x) (hy : Determined y) (hst : s.Precedes t)
    (hk : t.stops k = true) (hk' : t.stops k' = true)
    (h : x.kinds ++ (y.kinds ++ k :: r) = x'.kinds ++ (y'.kinds ++ k' :: r')) :
    x = x' ∧ y = y' ∧ k = k' ∧ r = r' := by
  -- Both first phrases end before a token that stops them, so they are the same.
  rcases hst.stops_head y (r := r) hk with ⟨k₁, r₁, h₁, hk₁⟩
  rcases hst.stops_head y' (r := r') hk' with ⟨k₂, r₂, h₂, hk₂⟩
  rw [h₁, h₂] at h
  rcases hx x' k₁ k₂ r₁ r₂ hk₁ hk₂ h with ⟨rfl, rfl, rfl⟩
  rcases hy y' k k' r r' hk hk' (h₁.trans h₂.symm) with ⟨rfl, hkr⟩
  exact ⟨rfl, rfl, hkr⟩

/-- A phrase that takes a token does not start with one that the symbol refuses. -/
theorem Heads.ne {s : Symbol} {ks : List Kind} (hks : Heads s ks) (hs : s.nullable = false)
    {k k' : Kind} {r r' : List Kind} (hk : s.starts k = false) : k :: r ≠ ks ++ k' :: r' := by
  intro h
  rcases hks k' r' with ⟨k₁, r₁, h₁, hstart | ⟨hnull, _⟩⟩
  · rw [h₁] at h
    cases h
    rw [hk] at hstart
    cases hstart
  · rw [hs] at hnull
    cases hnull

theorem starts_eq_false_of_stops_many {s : Symbol} {k : Kind}
    (h : (Symbol.many s).stops k = true) : s.starts k = false := by
  simpa using (Bool.and_eq_true_iff.mp h).1

theorem determined_done {s : Symbol} (hs : s.nullable = false) :
    Determined (.done : Phrase (.many s)) := by
  intro d' k k' r r' hk _ h
  cases d' with
  | done =>
      cases h
      exact ⟨rfl, rfl, rfl⟩
  | more x xs =>
      exact absurd h ((x.heads_append xs hs).ne hs (starts_eq_false_of_stops_many hk))

theorem determined_more {s : Symbol} (hs : (Symbol.many s).Predictive) {x : Phrase s}
    {xs : Phrase (.many s)} (hx : Determined x) (hxs : Determined xs) :
    Determined (.more x xs) := by
  intro d' k k' r r' hk hk' h
  cases d' with
  | done =>
      exact absurd h.symm
        ((x.heads_append xs hs.2.1).ne hs.2.1 (starts_eq_false_of_stops_many hk'))
  | more x' xs' =>
      have hpre : s.Precedes (.many s) :=
        ⟨hs.2.2, fun _ k hk => (Bool.and_eq_true_iff.mp hk).2⟩
      simp only [Phrase.kinds, List.append_assoc] at h
      rcases hx.append hxs hpre hk hk' h with ⟨rfl, rfl, hkr⟩
      exact ⟨rfl, hkr⟩

theorem determined_absent {s : Symbol} (hs : s.nullable = false) :
    Determined (.absent : Phrase (.option s)) := by
  intro d' k k' r r' hk _ h
  cases d' with
  | absent =>
      cases h
      exact ⟨rfl, rfl, rfl⟩
  | present x => exact absurd h (x.heads.ne hs (starts_eq_false_of_stops_many hk))

theorem determined_present {s : Symbol} (hs : s.nullable = false) {x : Phrase s}
    (hx : Determined x) : Determined (.present x) := by
  intro d' k k' r r' hk hk' h
  cases d' with
  | absent => exact absurd h.symm (x.heads.ne hs (starts_eq_false_of_stops_many hk'))
  | present x' =>
      rcases hx x' k k' r r' (Bool.and_eq_true_iff.mp hk).2 (Bool.and_eq_true_iff.mp hk').2 h with
        ⟨rfl, hkr⟩
      exact ⟨rfl, hkr⟩

theorem determined_items {s : Symbol} (hs : (Symbol.list s).Predictive) {first : Phrase s}
    {rest : Phrase (.many (.after .comma s))} (hfirst : Determined first)
    (hrest : Determined rest) : Determined (.items first rest) := by
  rcases hs with ⟨_, hnull, hright, hcomma, hstop⟩
  intro d' k k' r r' _ _ h
  cases d' with
  | noItems =>
      simp only [Phrase.kinds, List.cons_append, List.append_assoc, List.nil_append,
        List.cons.injEq, true_and] at h
      rw [← List.append_assoc] at h
      exact absurd h.symm ((first.heads_append rest hnull).ne hnull hright)
  | items first' rest' =>
      have hpre : s.Precedes (.many (.after .comma s)) := by
        refine ⟨fun k hk => ?_, fun _ k hk => (Bool.and_eq_true_iff.mp hk).2⟩
        have hk : k = .punct .comma := by simpa [Symbol.starts] using hk
        rw [hk, hcomma]
      have hclose : (Symbol.many (.after .comma s)).stops (.punct .rightParen) = true := by
        simp [Symbol.stops, Symbol.starts, hstop]
      simp only [Phrase.kinds, List.cons_append, List.append_assoc, List.nil_append,
        List.cons.injEq, true_and] at h
      rcases hfirst.append hrest hpre hclose hclose h with ⟨rfl, rfl, _, h⟩
      cases h
      exact ⟨rfl, rfl, rfl⟩

theorem determined_noItems {s : Symbol} (hs : (Symbol.list s).Predictive) :
    Determined (.noItems : Phrase (.list s)) := by
  intro d' k k' r r' _ _ h
  cases d' with
  | noItems =>
      cases h
      exact ⟨rfl, rfl, rfl⟩
  | items first rest =>
      simp only [Phrase.kinds, List.cons_append, List.append_assoc, List.nil_append,
        List.cons.injEq, true_and] at h
      rw [← List.append_assoc] at h
      exact absurd h ((first.heads_append rest hs.2.1).ne hs.2.1 hs.2.2.1)

/-! ## The symbols that productions repeat -/

namespace Symbol

theorem predictive_many_after {p : Punct} {s : Symbol} (hs : s.Predictive)
    (hp : s.stops (.punct p) = true) : (Symbol.many (.after p s)).Predictive := by
  refine ⟨hs, rfl, fun k hk => ?_⟩
  have hk : k = .punct p := by simpa [starts] using hk
  rw [hk]
  exact hp

theorem predictive_many_link (l : Level) : (Symbol.many (.link l)).Predictive := by
  refine ⟨trivial, rfl, fun k hk => ?_⟩
  have hk : looseness k = (Rung.chain l).rank := by simpa [starts] using hk
  simpa [stops, hk] using l.rank_operand_lt

theorem predictive_many_statement : (Symbol.many .statement).Predictive := by
  refine ⟨trivial, rfl, fun k hk => ?_⟩
  simp only [stops, decide_eq_true_eq, ne_eq]
  rintro rfl
  cases hk

theorem predictive_list_expression : (Symbol.list .expression).Predictive :=
  ⟨trivial, rfl, rfl, rfl, rfl⟩

theorem predictive_list_name : (Symbol.list .name).Predictive :=
  ⟨trivial, rfl, rfl, rfl, rfl⟩

theorem precedes_of_stops {s t : Symbol} (h : ∀ k, s.stops k = true) : s.Precedes t :=
  ⟨fun k _ => h k, fun _ k _ => h k⟩

theorem precedes_links (l : Level) : (Symbol.expr l.operand).Precedes (.many (.link l)) := by
  refine ⟨fun k hk => ?_, fun _ k hk => (Bool.and_eq_true_iff.mp hk).2⟩
  have hk : looseness k = (Rung.chain l).rank := by simpa [starts] using hk
  simpa [stops, hk] using l.rank_operand_lt

theorem precedes_relation : (Symbol.expr (.chain .sum)).Precedes (.option .relation) := by
  refine ⟨fun k hk => ?_, fun _ k hk => (Bool.and_eq_true_iff.mp hk).2⟩
  have hk : looseness k = 3 := by simpa [starts] using hk
  simp [stops, hk, Rung.rank]

theorem precedes_application : Symbol.path.Precedes .application := by
  refine ⟨fun k hk => ?_, nofun⟩
  have hk : k = .punct .leftParen := by simpa [starts] using hk
  simp [stops, hk]

theorem precedes_option_application : Symbol.path.Precedes (.option .application) := by
  refine ⟨precedes_application.starts, fun _ k hk => ?_⟩
  simpa [stops, starts] using (Bool.and_eq_true_iff.mp hk).2

theorem stops_links {l : Level} {k : Kind} (h : (Symbol.expr (.chain l)).stops k = true) :
    (Symbol.many (.link l)).stops k = true := by
  have hlt := l.rank_operand_lt
  simp only [stops, starts, decide_eq_true_eq, Bool.and_eq_true, Bool.not_eq_true',
    decide_eq_false_iff_not] at h ⊢
  exact ⟨by omega, by omega⟩

theorem stops_relation {k : Kind} (h : (Symbol.expr .comparison).stops k = true) :
    (Symbol.option .relation).stops k = true := by
  have hlt : 3 < looseness k := of_decide_eq_true h
  have hsum : (Rung.chain .sum).rank = 2 := rfl
  simp only [stops, starts, hsum, decide_eq_true_eq, Bool.and_eq_true, Bool.not_eq_true',
    decide_eq_false_iff_not]
  exact ⟨by omega, by omega⟩

theorem ne_of_stops_primary {k : Kind} (h : (Symbol.expr .primary).stops k = true) :
    k ≠ .punct .dot ∧ k ≠ .punct .leftParen := by
  constructor
  · rintro rfl
    cases h
  · rintro rfl
    cases h

theorem stops_option_application {k : Kind} (h : (Symbol.expr .primary).stops k = true) :
    (Symbol.option .application).stops k = true := by
  rcases ne_of_stops_primary h with ⟨hdot, hparen⟩
  simp [stops, starts, hdot, hparen]

theorem stops_alternative {k : Kind} (h : Symbol.statement.stops k = true) :
    (Symbol.option .alternative).stops k = true := by
  have hne : k ≠ .keyword .elseKw := of_decide_eq_true h
  simp [stops, starts, hne]

theorem stops_calls {k : Kind} (h : k ≠ .punct .dot) : (Symbol.many .call).stops k = true := by
  simp [stops, starts, h]

end Symbol

/-! ## Literals -/

namespace Literal

theorem kind_injective {v w : Literal} (h : v.kind = w.kind) : v = w := by
  rcases v with n | s | (_ | _) | _ <;> rcases w with m | t | (_ | _) | _ <;>
    simp [kind] at h ⊢ <;> exact h

theorem starts_path_kind (v : Literal) : Symbol.path.starts v.kind = false := by
  rcases v with n | s | (_ | _) | _ <;> rfl

theorem kind_ne_leftParen (v : Literal) : v.kind ≠ .punct .leftParen := by
  rcases v with n | s | (_ | _) | _ <;> simp [kind]

end Literal

/-! ## Productions -/

theorem determined_name (n : String) : Determined (.name n) := by
  intro d' k k' r r' _ _ h
  cases d' with
  | name n' =>
      cases h
      exact ⟨rfl, rfl, rfl⟩

theorem determined_path {first : Phrase .name} {rest : Phrase (.many (.after .dot .name))}
    (hfirst : Determined first) (hrest : Determined rest) : Determined (.path first rest) := by
  intro d' k k' r r' hk hk' h
  cases d' with
  | path first' rest' =>
      have hpre : Symbol.name.Precedes (.many (.after .dot .name)) :=
        Symbol.precedes_of_stops fun _ => rfl
      have hstop : ∀ k, Symbol.path.stops k = true →
          (Symbol.many (.after .dot .name)).stops k = true := by
        intro k hk
        simpa [Symbol.stops, Symbol.starts] using hk
      simp only [Phrase.kinds, List.append_assoc] at h
      rcases hfirst.append hrest hpre (hstop k hk) (hstop k' hk') h with ⟨rfl, rfl, hkr⟩
      exact ⟨rfl, hkr⟩

theorem determined_after {s : Symbol} (p : Punct) {x : Phrase s} (hx : Determined x) :
    Determined (.after p x) := by
  intro d' k k' r r' hk hk' h
  cases d' with
  | after _ x' =>
      simp only [Phrase.kinds, List.cons_append, List.cons.injEq, true_and] at h
      rcases hx x' k k' r r' hk hk' h with ⟨rfl, hkr⟩
      exact ⟨rfl, hkr⟩

theorem determined_chain {l : Level} {first : Phrase (.expr l.operand)}
    {rest : Phrase (.many (.link l))} (hfirst : Determined first) (hrest : Determined rest) :
    Determined (.chain first rest) := by
  intro d' k k' r r' hk hk' h
  cases d' with
  | chain first' rest' =>
      simp only [Phrase.kinds, List.append_assoc] at h
      rcases hfirst.append hrest (Symbol.precedes_links l) (Symbol.stops_links hk)
        (Symbol.stops_links hk') h with ⟨rfl, rfl, hkr⟩
      exact ⟨rfl, hkr⟩

theorem determined_link {l : Level} (j : Joint l) {right : Phrase (.expr l.operand)}
    (hright : Determined right) : Determined (.link j right) := by
  intro d' k k' r r' hk hk' h
  cases d' with
  | link j' right' =>
      simp only [Phrase.kinds, List.cons_append, List.cons.injEq] at h
      have hj : j = j' := by
        cases j <;> cases j' <;> simp [Joint.kind] at h ⊢
      rcases hright right' k k' r r' hk hk' h.2 with ⟨rfl, hkr⟩
      exact ⟨by rw [hj], hkr⟩

theorem determined_not {x : Phrase (.expr .inversion)} (hx : Determined x) :
    Determined (.not x) := by
  intro d' k k' r r' hk hk' h
  cases d' with
  | not x' =>
      simp only [Phrase.kinds, List.cons_append, List.cons.injEq, true_and] at h
      rcases hx x' k k' r r' hk hk' h with ⟨rfl, hkr⟩
      exact ⟨rfl, hkr⟩
  | compared x' => exact absurd h (x'.heads.ne rfl rfl)

theorem determined_compared {x : Phrase (.expr .comparison)} (hx : Determined x) :
    Determined (.compared x) := by
  intro d' k k' r r' hk hk' h
  cases d' with
  | not x' => exact absurd h.symm (x.heads.ne rfl rfl)
  | compared x' =>
      rcases hx x' k k' r r' hk hk' h with ⟨rfl, hkr⟩
      exact ⟨rfl, hkr⟩

theorem determined_comparison {left : Phrase (.expr (.chain .sum))}
    {right : Phrase (.option .relation)} (hleft : Determined left) (hright : Determined right) :
    Determined (.comparison left right) := by
  intro d' k k' r r' hk hk' h
  cases d' with
  | comparison left' right' =>
      simp only [Phrase.kinds, List.append_assoc] at h
      rcases hleft.append hright Symbol.precedes_relation
        (Symbol.stops_relation hk) (Symbol.stops_relation hk') h with ⟨rfl, rfl, hkr⟩
      exact ⟨rfl, hkr⟩

theorem determined_relation (op : Relation) {right : Phrase (.expr (.chain .sum))}
    (hright : Determined right) : Determined (.relation op right) := by
  intro d' k k' r r' hk hk' h
  cases d' with
  | relation op' right' =>
      simp only [Phrase.kinds, List.cons_append, List.cons.injEq] at h
      have hop : op = op' := by
        cases op <;> cases op' <;> simp [relationMark] at h ⊢
      rcases hright right' k k' r r' hk hk' h.2 with ⟨rfl, hkr⟩
      exact ⟨by rw [hop], hkr⟩

theorem determined_signed (sign : Sign) {x : Phrase (.expr .factor)} (hx : Determined x) :
    Determined (.signed sign x) := by
  intro d' k k' r r' hk hk' h
  cases d' with
  | signed sign' x' =>
      simp only [Phrase.kinds, List.cons_append, List.cons.injEq] at h
      have hsign : sign = sign' := by
        cases sign <;> cases sign' <;> simp [signMark] at h ⊢
      rcases hx x' k k' r r' hk hk' h.2 with ⟨rfl, hkr⟩
      exact ⟨by rw [hsign], hkr⟩
  | unsigned x' => exact absurd h (x'.heads.ne rfl (by cases sign <;> rfl))

theorem determined_unsigned {x : Phrase (.expr .primary)} (hx : Determined x) :
    Determined (.unsigned x) := by
  intro d' k k' r r' hk hk' h
  cases d' with
  | signed sign' x' => exact absurd h.symm (x.heads.ne rfl (by cases sign' <;> rfl))
  | unsigned x' =>
      rcases hx x' k k' r r' hk hk' h with ⟨rfl, hkr⟩
      exact ⟨rfl, hkr⟩

theorem determined_literal (v : Literal) : Determined (.literal v) := by
  intro d' k k' r r' _ _ h
  cases d' with
  | literal v' =>
      simp only [Phrase.kinds, List.cons_append, List.nil_append, List.cons.injEq] at h
      exact ⟨by rw [Literal.kind_injective h.1], h.2⟩
  | reference p' applied' =>
      exact absurd h ((p'.heads_append applied' rfl).ne rfl v.starts_path_kind)
  | group x' calls' =>
      simp only [Phrase.kinds, List.cons_append, List.cons.injEq] at h
      exact absurd h.1 v.kind_ne_leftParen

theorem determined_reference {p : Phrase .path} {applied : Phrase (.option .application)}
    (hp : Determined p) (happlied : Determined applied) : Determined (.reference p applied) := by
  intro d' k k' r r' hk hk' h
  cases d' with
  | literal v' =>
      exact absurd h.symm ((p.heads_append applied rfl).ne rfl v'.starts_path_kind)
  | reference p' applied' =>
      simp only [Phrase.kinds, List.append_assoc] at h
      rcases hp.append happlied Symbol.precedes_option_application
        (Symbol.stops_option_application hk) (Symbol.stops_option_application hk') h with
        ⟨rfl, rfl, hkr⟩
      exact ⟨rfl, hkr⟩
  | group x' calls' =>
      simp only [Phrase.kinds, List.cons_append, List.append_assoc] at h
      rw [← List.append_assoc] at h
      exact absurd h.symm ((p.heads_append applied rfl).ne rfl rfl)

theorem determined_group {x : Phrase .expression} {calls : Phrase (.many .call)}
    (hx : Determined x) (hcalls : Determined calls) : Determined (.group x calls) := by
  intro d' k k' r r' hk hk' h
  cases d' with
  | literal v' =>
      simp only [Phrase.kinds, List.cons_append, List.cons.injEq] at h
      exact absurd h.1.symm v'.kind_ne_leftParen
  | reference p' applied' =>
      simp only [Phrase.kinds, List.cons_append, List.append_assoc] at h
      rw [← List.append_assoc] at h
      exact absurd h ((p'.heads_append applied' rfl).ne rfl rfl)
  | group x' calls' =>
      simp only [Phrase.kinds, List.cons_append, List.append_assoc, List.cons.injEq, true_and] at h
      -- The closing parenthesis stops the expression, whatever stands in it.
      rcases hx x' _ _ _ _ rfl rfl h with ⟨rfl, _, h⟩
      rcases hcalls calls' k k' r r'
        (Symbol.stops_calls (Symbol.ne_of_stops_primary hk).1)
        (Symbol.stops_calls (Symbol.ne_of_stops_primary hk').1) h with ⟨rfl, hkr⟩
      exact ⟨rfl, hkr⟩

theorem determined_application {args : Phrase (.list .expression)} {calls : Phrase (.many .call)}
    (hargs : Determined args) (hcalls : Determined calls) :
    Determined (.application args calls) := by
  intro d' k k' r r' hk hk' h
  cases d' with
  | application args' calls' =>
      simp only [Phrase.kinds, List.append_assoc] at h
      rcases hargs.append hcalls (Symbol.precedes_of_stops fun _ => rfl)
        (Symbol.stops_calls (of_decide_eq_true hk)) (Symbol.stops_calls (of_decide_eq_true hk')) h
        with ⟨rfl, rfl, hkr⟩
      exact ⟨rfl, hkr⟩

theorem determined_call {m : Phrase .name} {args : Phrase (.list .expression)} (hm : Determined m)
    (hargs : Determined args) : Determined (.call m args) := by
  intro d' k k' r r' hk hk' h
  cases d' with
  | call m' args' =>
      simp only [Phrase.kinds, List.cons_append, List.append_assoc, List.cons.injEq, true_and] at h
      rcases hm.append hargs (Symbol.precedes_of_stops fun _ => rfl) hk hk' h
        with ⟨rfl, rfl, hkr⟩
      exact ⟨rfl, hkr⟩

theorem determined_ret {x : Phrase .expression} (hx : Determined x) : Determined (.ret x) := by
  intro d' k k' r r' hk hk' h
  -- Only the end of the line stops a simple statement.
  rw [of_decide_eq_true hk, of_decide_eq_true hk'] at h ⊢
  cases d' with
  | ret x' =>
      simp only [Phrase.kinds, List.cons_append, List.cons.injEq, true_and] at h
      rcases hx x' _ _ r r' rfl rfl h with ⟨rfl, hkr⟩
      exact ⟨rfl, hkr⟩
  | print args' => cases h
  | assign target' value' =>
      simp only [Phrase.kinds, List.append_assoc] at h
      exact absurd h (target'.heads.ne rfl rfl)
  | apply callee' applied' => exact absurd h ((callee'.heads_append applied' rfl).ne rfl rfl)

theorem determined_print {args : Phrase (.option (.list .expression))} (hargs : Determined args) :
    Determined (.print args) := by
  intro d' k k' r r' hk hk' h
  rw [of_decide_eq_true hk, of_decide_eq_true hk'] at h ⊢
  cases d' with
  | ret x' => cases h
  | print args' =>
      simp only [Phrase.kinds, List.cons_append, List.cons.injEq, true_and] at h
      rcases hargs args' _ _ r r' rfl rfl h with ⟨rfl, hkr⟩
      exact ⟨rfl, hkr⟩
  | assign target' value' =>
      simp only [Phrase.kinds, List.append_assoc] at h
      exact absurd h (target'.heads.ne rfl rfl)
  | apply callee' applied' => exact absurd h ((callee'.heads_append applied' rfl).ne rfl rfl)

theorem determined_assign {target : Phrase .path} {value : Phrase .expression}
    (htarget : Determined target) (hvalue : Determined value) :
    Determined (.assign target value) := by
  intro d' k k' r r' hk hk' h
  rw [of_decide_eq_true hk, of_decide_eq_true hk'] at h ⊢
  simp only [Phrase.kinds, List.append_assoc] at h
  cases d' with
  | ret x' => exact absurd h.symm (target.heads.ne rfl rfl)
  | print args' => exact absurd h.symm (target.heads.ne rfl rfl)
  | assign target' value' =>
      simp only [Phrase.kinds, List.append_assoc] at h
      rcases htarget target' _ _ _ _ rfl rfl h with ⟨rfl, _, h⟩
      rcases hvalue value' _ _ r r' rfl rfl h with ⟨rfl, hkr⟩
      exact ⟨rfl, hkr⟩
  | apply callee' applied' =>
      simp only [Phrase.kinds, List.append_assoc] at h
      -- The paths agree, and then an assignment and a call differ in the next token.
      rcases applied'.exists_leftParen .newline r' with ⟨r₁, h₁⟩
      rw [h₁] at h
      cases (htarget callee' _ _ _ _ rfl rfl h).2.1

theorem determined_apply {callee : Phrase .path} {applied : Phrase .application}
    (hcallee : Determined callee) (happlied : Determined applied) :
    Determined (.apply callee applied) := by
  intro d' k k' r r' hk hk' h
  rw [of_decide_eq_true hk, of_decide_eq_true hk'] at h ⊢
  cases d' with
  | ret x' => exact absurd h.symm ((callee.heads_append applied rfl).ne rfl rfl)
  | print args' => exact absurd h.symm ((callee.heads_append applied rfl).ne rfl rfl)
  | assign target' value' =>
      simp only [Phrase.kinds, List.append_assoc] at h
      rcases applied.exists_leftParen .newline r with ⟨r₁, h₁⟩
      rw [h₁] at h
      cases (hcallee target' _ _ _ _ rfl rfl h).2.1
  | apply callee' applied' =>
      simp only [Phrase.kinds, List.append_assoc] at h
      rcases hcallee.append happlied Symbol.precedes_application rfl rfl h
        with ⟨rfl, rfl, hkr⟩
      exact ⟨rfl, hkr⟩

theorem determined_block {body : Phrase (.many .statement)} (hbody : Determined body) :
    Determined (.block body) := by
  intro d' k k' r r' _ _ h
  cases d' with
  | block body' =>
      simp only [Phrase.kinds, List.cons_append, List.append_assoc, List.cons.injEq, true_and] at h
      rcases hbody body' _ _ _ _ rfl rfl h with ⟨rfl, _, h⟩
      cases h
      exact ⟨rfl, rfl, rfl⟩

theorem determined_simple {x : Phrase .simple} (hx : Determined x) : Determined (.simple x) := by
  intro d' k k' r r' _ _ h
  cases d' with
  | simple x' =>
      simp only [Phrase.kinds, List.append_assoc] at h
      rcases hx x' _ _ _ _ rfl rfl h with ⟨rfl, _, h⟩
      cases h
      exact ⟨rfl, rfl, rfl⟩
  | conditional c' t' e' =>
      simp only [Phrase.kinds, List.append_assoc] at h
      exact absurd h.symm (x.heads.ne rfl rfl)
  | classDefinition n' parent' methods' =>
      simp only [Phrase.kinds, List.append_assoc] at h
      exact absurd h.symm (x.heads.ne rfl rfl)

theorem determined_conditional {c : Phrase .expression} {t : Phrase .block}
    {e : Phrase (.option .alternative)} (hc : Determined c) (ht : Determined t)
    (he : Determined e) : Determined (.conditional c t e) := by
  intro d' k k' r r' hk hk' h
  cases d' with
  | simple x' =>
      simp only [Phrase.kinds, List.append_assoc] at h
      exact absurd h (x'.heads.ne rfl rfl)
  | conditional c' t' e' =>
      simp only [Phrase.kinds, List.cons_append, List.append_assoc, List.cons.injEq, true_and] at h
      rcases hc c' _ _ _ _ rfl rfl h with ⟨rfl, _, h⟩
      -- An `else` after the block belongs to this condition: no other may follow the statement.
      rcases ht.append he (Symbol.precedes_of_stops fun _ => rfl)
        (Symbol.stops_alternative hk) (Symbol.stops_alternative hk') h with ⟨rfl, rfl, hkr⟩
      exact ⟨rfl, hkr⟩
  | classDefinition n' parent' methods' => cases h

theorem determined_alternative {body : Phrase .block} (hbody : Determined body) :
    Determined (.alternative body) := by
  intro d' k k' r r' _ _ h
  cases d' with
  | alternative body' =>
      simp only [Phrase.kinds, List.cons_append, List.cons.injEq, true_and] at h
      rcases hbody body' _ _ r r' rfl rfl h with ⟨rfl, hkr⟩
      exact ⟨rfl, hkr⟩

theorem determined_classDefinition {n : Phrase .name} {parent : Phrase (.option .base)}
    {methods : Phrase (.many .method)} (hn : Determined n) (hparent : Determined parent)
    (hmethods : Determined methods) : Determined (.classDefinition n parent methods) := by
  intro d' k k' r r' _ _ h
  cases d' with
  | simple x' =>
      simp only [Phrase.kinds, List.append_assoc] at h
      exact absurd h (x'.heads.ne rfl rfl)
  | conditional c' t' e' => cases h
  | classDefinition n' parent' methods' =>
      simp only [Phrase.kinds, List.cons_append, List.append_assoc, List.cons.injEq, true_and] at h
      rcases hn.append hparent (Symbol.precedes_of_stops fun _ => rfl) rfl rfl h
        with ⟨rfl, rfl, _, h⟩
      simp only [List.cons.injEq, true_and] at h
      rcases hmethods methods' _ _ _ _ rfl rfl h with ⟨rfl, _, h⟩
      cases h
      exact ⟨rfl, rfl, rfl⟩

theorem determined_base {n : Phrase .name} (hn : Determined n) : Determined (.base n) := by
  intro d' k k' r r' _ _ h
  cases d' with
  | base n' =>
      simp only [Phrase.kinds, List.cons_append, List.append_assoc, List.cons.injEq, true_and] at h
      rcases hn n' _ _ _ _ rfl rfl h with ⟨rfl, _, h⟩
      cases h
      exact ⟨rfl, rfl, rfl⟩

theorem determined_method {n : Phrase .name} {params : Phrase (.list .name)}
    {body : Phrase .block} (hn : Determined n) (hparams : Determined params)
    (hbody : Determined body) : Determined (.method n params body) := by
  intro d' k k' r r' _ _ h
  cases d' with
  | method n' params' body' =>
      simp only [Phrase.kinds, List.cons_append, List.append_assoc, List.cons.injEq, true_and] at h
      rcases hn.append hparams (Symbol.precedes_of_stops fun _ => rfl) rfl rfl h
        with ⟨rfl, rfl, _, h⟩
      rcases hbody body' _ _ r r' rfl rfl h with ⟨rfl, hkr⟩
      exact ⟨rfl, hkr⟩

/-! ## Main statement -/

/-- A tree is determined by the tokens that it derives and one token after them. -/
theorem Phrase.determined {s : Symbol} (hs : s.Predictive) (d : Phrase s) : Determined d := by
  -- One case a production; each child is of a symbol that is predictive in its place.
  induction d with
  | name n => exact determined_name n
  | path first rest ihFirst ihRest =>
      exact determined_path (ihFirst trivial) (ihRest (Symbol.predictive_many_after trivial rfl))
  | done => exact determined_done hs.2.1
  | more x xs ihX ihXs => exact determined_more hs (ihX hs.1) (ihXs hs)
  | absent => exact determined_absent hs.2
  | present x ihX => exact determined_present hs.2 (ihX hs.1)
  | after p x ihX => exact determined_after p (ihX hs)
  | noItems => exact determined_noItems hs
  | items first rest ihFirst ihRest =>
      exact determined_items hs (ihFirst hs.1)
        (ihRest (Symbol.predictive_many_after hs.1 hs.2.2.2.1))
  | @chain l first rest ihFirst ihRest =>
      exact determined_chain (ihFirst trivial) (ihRest (Symbol.predictive_many_link l))
  | link j right ihRight => exact determined_link j (ihRight trivial)
  | not x ihX => exact determined_not (ihX trivial)
  | compared x ihX => exact determined_compared (ihX trivial)
  | comparison left right ihLeft ihRight =>
      exact determined_comparison (ihLeft trivial) (ihRight ⟨trivial, rfl⟩)
  | relation op right ihRight => exact determined_relation op (ihRight trivial)
  | signed sign x ihX => exact determined_signed sign (ihX trivial)
  | unsigned x ihX => exact determined_unsigned (ihX trivial)
  | literal v => exact determined_literal v
  | reference p applied ihP ihApplied =>
      exact determined_reference (ihP trivial) (ihApplied ⟨trivial, rfl⟩)
  | group x calls ihX ihCalls =>
      exact determined_group (ihX trivial) (ihCalls ⟨trivial, rfl, fun _ _ => rfl⟩)
  | application args calls ihArgs ihCalls =>
      exact determined_application (ihArgs Symbol.predictive_list_expression)
        (ihCalls ⟨trivial, rfl, fun _ _ => rfl⟩)
  | call m args ihM ihArgs =>
      exact determined_call (ihM trivial) (ihArgs Symbol.predictive_list_expression)
  | ret x ihX => exact determined_ret (ihX trivial)
  | print args ihArgs => exact determined_print (ihArgs ⟨Symbol.predictive_list_expression, rfl⟩)
  | assign target value ihTarget ihValue =>
      exact determined_assign (ihTarget trivial) (ihValue trivial)
  | apply callee applied ihCallee ihApplied =>
      exact determined_apply (ihCallee trivial) (ihApplied trivial)
  | block body ihBody => exact determined_block (ihBody Symbol.predictive_many_statement)
  | simple x ihX => exact determined_simple (ihX trivial)
  | conditional c t e ihC ihT ihE =>
      exact determined_conditional (ihC trivial) (ihT trivial) (ihE ⟨trivial, rfl⟩)
  | alternative body ihBody => exact determined_alternative (ihBody trivial)
  | classDefinition n parent methods ihN ihParent ihMethods =>
      exact determined_classDefinition (ihN trivial) (ihParent ⟨trivial, rfl⟩)
        (ihMethods ⟨trivial, rfl, fun _ _ => rfl⟩)
  | base n ihN => exact determined_base (ihN trivial)
  | method n params body ihN ihParams ihBody =>
      exact determined_method (ihN trivial) (ihParams Symbol.predictive_list_name) (ihBody trivial)

end Grammar
end Offside
