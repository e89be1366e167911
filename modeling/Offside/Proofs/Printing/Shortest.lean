import Offside.Proofs.Printing.Writings

/-!
# Shortest — printed expressions have no parentheses to spare

This file counts tokens:

- `Node.tokensOn`     : the tokens of an expression on a rung, with the parentheses around it
- `Node.tokensCalled` : the same in front of a call
- `Symbol.Needs`      : what a phrase stands for is printed with no more than `n` tokens

Whatever phrase stands for an expression has as many tokens as the printed one or more
(`length_kinds_le`).  An operand that is printed in parentheses therefore cannot do without them
(`not_writes_bare`), and neither can the receiver of a call (`not_leads_bare`).  Only the number of tokens
is compared, not their text.
-/

namespace Offside

open Grammar

/-! ## Counting tokens -/

theorem Kind.length_enclosed (bare : Bool) (ks : List Kind) :
    (enclosed bare ks).length = if bare then ks.length else ks.length + 2 := by
  rw [enclosed]
  split
  · rfl
  · simp

theorem Kind.length_dotted {path : List String} (hpath : path ≠ []) :
    (dotted path).length + 1 = 2 * path.length := by
  cases path with
  | nil => exact absurd rfl hpath
  | cons first rest =>
      have hrest : (rest.flatMap fun name => [punct .dot, identifier name]).length
          = rest.length * 2 := by
        simp [List.length_flatMap]
      rw [dotted, List.length_cons, List.length_cons, hrest]
      omega

namespace Node

def tokensOn (x : Node) (r : Rung) : Nat :=
  (Kind.enclosed (x.standsOn r) x.kinds).length

def tokensCalled (x : Node) : Nat :=
  (Kind.enclosed x.isCallable x.kinds).length

variable {x : Node} {r r' : Rung}

theorem tokensOn_of_standsOn (h : x.standsOn r = true) : x.tokensOn r = x.kinds.length := by
  rw [tokensOn, Kind.length_enclosed, if_pos h]

theorem tokensOn_eq_add_two (h : x.standsOn r = false) : x.tokensOn r = x.kinds.length + 2 := by
  rw [tokensOn, Kind.length_enclosed, if_neg (by simp [h])]

theorem tokensOn_le (x : Node) (r : Rung) : x.tokensOn r ≤ x.kinds.length + 2 := by
  rw [tokensOn, Kind.length_enclosed]
  split
  · exact Nat.le_add_right _ 2
  · exact Nat.le_refl _

theorem tokensCalled_le (x : Node) : x.tokensCalled ≤ x.kinds.length + 2 := by
  rw [tokensCalled, Kind.length_enclosed]
  split
  · exact Nat.le_add_right _ 2
  · exact Nat.le_refl _

/-- On a looser rung no more tokens are printed. -/
theorem tokensOn_mono (x : Node) (hle : r.height ≤ r'.height) : x.tokensOn r' ≤ x.tokensOn r := by
  cases hstands : x.standsOn r with
  | false => exact tokensOn_eq_add_two hstands ▸ x.tokensOn_le r'
  | true =>
      have hlooser : x.standsOn r' = true :=
        decide_eq_true (Nat.le_trans (of_decide_eq_true hstands) hle)
      exact Nat.le_of_eq
        ((tokensOn_of_standsOn hlooser).trans (tokensOn_of_standsOn hstands).symm)

theorem tokensOn_expression (x : Node) : x.tokensOn (.chain .or) = x.kinds.length :=
  tokensOn_of_standsOn (decide_eq_true x.rung.height_le)

theorem tokens_of_isCallable (h : x.isCallable = true) :
    x.tokensOn .primary = x.kinds.length ∧ x.tokensCalled = x.kinds.length := by
  constructor
  · cases x with
    | «variable» | call | construct | stringify => rfl
    | _ => cases h
  · rw [tokensCalled, Kind.length_enclosed, if_pos h]

theorem tokensOn_joint {l : Level} (j : Joint l) (x y : Node) :
    (j.node x y).tokensOn (.chain l) = x.tokensOn (.chain l) + (y.tokensOn l.operand + 1) := by
  have hstands : (j.node x y).standsOn (.chain l) = true := by cases j <;> rfl
  have hkinds : (j.node x y).kinds = Kind.enclosed (x.standsOn (.chain l)) x.kinds
      ++ j.kind :: Kind.enclosed (y.standsOn l.operand) y.kinds := by
    cases j <;> rfl
  rw [tokensOn_of_standsOn hstands, hkinds, List.length_append, List.length_cons]
  rfl

theorem tokensOn_comparison (op : Relation) (x y : Node) :
    (comparison op x y).tokensOn .comparison
      = x.tokensOn (.chain .sum) + (y.tokensOn (.chain .sum) + 1) := by
  have hstands : (comparison op x y).standsOn .comparison = true := rfl
  rw [tokensOn_of_standsOn hstands, kinds, List.length_append, List.length_cons]
  rfl

theorem tokensCalled_call (receiver : Node) (method : String) (args : List Node) :
    (call receiver method args).tokensCalled
      = receiver.tokensCalled + ((kindsOfArgs args).length + 2) := by
  have hcallable : (call receiver method args).isCallable = true := rfl
  rw [(tokens_of_isCallable hcallable).2, kinds, List.length_append, List.length_cons,
    List.length_cons]
  rfl

end Node

namespace Grammar

/-! ## What phrases stand for -/

/-- The numbers that belong to several things, added up. -/
inductive Total {α : Type} (M : α → Nat → Prop) : List α → Nat → Prop where
  | nil : Total M [] 0
  | cons {x : α} {xs : List α} {n k : Nat} (hx : M x n) (hxs : Total M xs k) :
      Total M (x :: xs) (n + k)

/-- A call takes no more than `n` tokens behind a node. Further calls go on without parentheses. -/
def CallNeeds (f : Node → Node) (n : Nat) : Prop :=
  ∀ x, (f x).isCallable = true ∧ (f x).tokensCalled ≤ x.tokensCalled + n

/-- What a phrase stands for is printed with no more than `n` tokens, or takes no more than `n` to put
behind a node. -/
def Symbol.Needs : (s : Symbol) → s.Meaning → Nat → Prop
  | .name => fun _ n => n = 1
  | .path => fun p n => (Kind.dotted (p.1 :: p.2)).length = n
  | .many s => Total s.Needs
  | .option s => fun x n => ∀ y ∈ x, s.Needs y n
  | .after _ s => fun m n => ∃ k, s.Needs m k ∧ n = k + 1
  | .list s => fun ms n => ∃ k, Total s.Needs ms k ∧ ms.length + 1 + k ≤ n ∧ 2 ≤ n
  | .expr r => fun x n => x.tokensOn r ≤ n
  | .link l => fun f n => ∀ x, (f x).tokensOn (.chain l) ≤ x.tokensOn (.chain l) + n
  | .relation => fun f n => ∀ x, (f x).tokensOn .comparison ≤ x.tokensOn (.chain .sum) + n
  | .call => CallNeeds
  | .application => fun (args, calls) n => ∃ k j, (Node.kindsOfArgs args).length ≤ k
      ∧ Total CallNeeds calls j ∧ n = k + j
  | _ => fun _ _ => True

namespace Total

variable {α : Type} {M : α → Nat → Prop} {n : Nat}

/-- Marks in front of each of several things. -/
theorem of_after {xs : List α} (h : Total (fun x n => ∃ k, M x k ∧ n = k + 1) xs n) :
    ∃ k, Total M xs k ∧ n = k + xs.length := by
  induction h with
  | nil => exact ⟨0, .nil, rfl⟩
  | cons hx _ ih =>
      rcases hx with ⟨i, hi, rfl⟩
      rcases ih with ⟨k, hk, rfl⟩
      refine ⟨i + k, .cons hi hk, ?_⟩
      rw [List.length_cons]
      omega

theorem eq_length {xs : List α} (h : Total (fun _ n => n = 1) xs n) : n = xs.length := by
  induction h with
  | nil => rfl
  | cons hx _ ih => rw [hx, ih, List.length_cons, Nat.add_comm]

/-- What links or calls add to a node, one after the other. -/
theorem applyAll (tokens : Node → Nat) {fs : List (Node → Node)}
    (h : Total (fun f n => ∀ x, tokens (f x) ≤ tokens x + n) fs n) (x : Node) :
    tokens (Grammar.applyAll x fs) ≤ tokens x + n := by
  induction h generalizing x with
  | nil => exact Nat.le_refl _
  | @cons f fs i k hf _ ih =>
      calc
        tokens (Grammar.applyAll (f x) fs) ≤ tokens (f x) + k := ih (f x)
        _ ≤ tokens x + i + k := Nat.add_le_add_right (hf x) k
        _ = tokens x + (i + k) := Nat.add_assoc _ _ _

theorem imp {N : α → Nat → Prop} {xs : List α} (h : Total M xs n)
    (himp : ∀ x n, M x n → N x n) : Total N xs n := by
  induction h with
  | nil => exact .nil
  | cons hx _ ih => exact .cons (himp _ _ hx) ih

theorem length_kindsOfMoreArgs {xs : List Node} (h : Total Symbol.expression.Needs xs n) :
    (Node.kindsOfMoreArgs xs).length ≤ n + xs.length := by
  induction h with
  | nil => exact Nat.le_refl _
  | @cons x xs i k hx _ ih =>
      have hx : x.kinds.length ≤ i := x.tokensOn_expression ▸ hx
      simp only [Node.kindsOfMoreArgs, List.length_cons, List.length_append]
      omega

end Total

theorem length_kindsOfArgs {args : List Node} {n : Nat}
    (h : (Symbol.list .expression).Needs args n) : (Node.kindsOfArgs args).length ≤ n := by
  rcases h with ⟨k, htotal, hle, htwo⟩
  cases htotal with
  | nil => exact htwo
  | @cons x xs i j hx hxs =>
      have hx : x.kinds.length ≤ i := x.tokensOn_expression ▸ hx
      have hmore := hxs.length_kindsOfMoreArgs
      simp only [Node.kindsOfArgs, List.length_cons, List.length_append, List.length_nil] at hle ⊢
      omega

/-- A call by a path has the tokens of the path and of the arguments. -/
theorem length_callee {p : String × List String} {args : List Node} {classes after : List Class}
    {x : Node} (h : Reading.callee (object p) (lastName p) args classes = some (x, after)) :
    x.isCallable = true
      ∧ x.kinds.length ≤ (Kind.dotted (p.1 :: p.2)).length + (Node.kindsOfArgs args).length := by
  have hpath := Kind.length_dotted (List.cons_ne_nil p.1 p.2)
  unfold Reading.callee at h
  split at h
  next first rest hobject =>
    cases h
    have hdotted := Kind.length_dotted (List.cons_ne_nil first rest)
    have hlength : (first :: rest).length = p.2.length := by
      rw [← hobject, object, List.length_dropLast, List.length_cons, Nat.add_sub_cancel]
    rw [List.length_cons] at hpath
    have hreceiver : (Node.variable (first :: rest)).isCallable = true := rfl
    refine ⟨rfl, ?_⟩
    rw [hobject, Node.kinds, List.length_append, Kind.length_enclosed, if_pos hreceiver, Node.kinds,
      List.length_cons, List.length_cons]
    omega
  next =>
    cases h
    refine ⟨rfl, ?_⟩
    rw [Node.kinds, List.length_cons]
    rw [List.length_cons] at hpath
    omega
  next =>
    split at h
    next y =>
      split at h
      next =>
        cases h
        refine ⟨rfl, ?_⟩
        simp only [Node.kinds, Node.kindsOfArgs, Node.kindsOfMoreArgs, List.length_cons,
          List.length_append, List.length_nil] at hpath ⊢
        omega
      next => cases h
    next => cases h

/-- Calls behind an expression, which may be in parentheses. -/
theorem tokensOn_applyAll {x : Node} {calls : List (Node → Node)} {n : Nat}
    (h : Total CallNeeds calls n) :
    (applyAll x calls).tokensOn .primary ≤ x.kinds.length + 2 + n
      ∧ (x.isCallable = true → (applyAll x calls).tokensOn .primary ≤ x.kinds.length + n) := by
  have hadds := Total.applyAll Node.tokensCalled (h.imp fun f n hf y => (hf y).2) x
  have hcallable : x.isCallable = true ∨ calls ≠ [] → (applyAll x calls).isCallable = true := by
    clear hadds
    induction h generalizing x with
    | nil => exact fun hx => hx.resolve_right fun hnil => hnil rfl
    | cons hf _ ih => exact fun _ => ih (.inl (hf x).1)
  have hle := x.tokensCalled_le
  constructor
  · cases h with
    | nil => exact x.tokensOn_le .primary
    | cons hf hfs =>
        have htokens := Node.tokens_of_isCallable (hcallable (.inr (List.cons_ne_nil _ _)))
        omega
  · intro hx
    have htokens := Node.tokens_of_isCallable (hcallable (.inl hx))
    have hself := Node.tokens_of_isCallable hx
    omega

/-! ## Phrases -/

namespace Phrase

variable {classes after : List Class}

theorem needs_path {first : Phrase .name} {rest : Phrase (.many (.after .dot .name))}
    (ihRest : ∀ {classes after : List Class} {ms : List String},
      rest.meaning classes = some (ms, after) → (Symbol.many (.after .dot .name)).Needs ms
        rest.kinds.length)
    {p : String × List String} (h : (path first rest).meaning classes = some (p, after)) :
    (Kind.dotted (p.1 :: p.2)).length = (path first rest).kinds.length := by
  cases first with
  | name n =>
      rw [meaning, meaning, Reading.bind_of_some rfl] at h
      rcases Reading.map_eq_some h with ⟨names, hnames, rfl⟩
      -- A dot and a name for each further name of the path.
      rcases (ihRest hnames).of_after with ⟨k, hk, hlength⟩
      have hcount := hk.eq_length
      have hdotted := Kind.length_dotted (List.cons_ne_nil n names)
      rw [List.length_cons] at hdotted
      rw [kinds, List.length_append, hlength, kinds, List.length_singleton]
      dsimp only
      omega

/-- A phrase has no fewer tokens than what it stands for is printed with. -/
theorem needs {s : Symbol} (d : Phrase s) {m : s.Meaning} (h : d.meaning classes = some (m, after)) :
    s.Needs m d.kinds.length := by
  induction d generalizing classes after with
  | name n => rfl
  | path first rest ihFirst ihRest => exact needs_path ihRest h
  | done =>
      rcases Reading.eq_of_pure_eq_some h with ⟨rfl, -⟩
      exact .nil
  | more x xs ihX ihXs =>
      rw [meaning] at h
      rcases Reading.bind_eq_some h with ⟨a, between, ha, hmore⟩
      rcases Reading.map_eq_some hmore with ⟨as, has, rfl⟩
      rw [kinds, List.length_append]
      exact .cons (ihX ha) (ihXs has)
  | absent =>
      rcases Reading.eq_of_pure_eq_some h with ⟨rfl, -⟩
      exact nofun
  | present x ihX =>
      rw [meaning] at h
      rcases Reading.map_eq_some h with ⟨a, ha, rfl⟩
      intro b hb
      cases hb
      exact ihX ha
  | after p x ihX => exact ⟨_, ihX h, rfl⟩
  | noItems =>
      rcases Reading.eq_of_pure_eq_some h with ⟨rfl, -⟩
      exact ⟨0, .nil, Nat.le_succ 1, Nat.le_refl 2⟩
  | items first rest ihFirst ihRest =>
      rw [meaning] at h
      rcases Reading.bind_eq_some h with ⟨a, between, ha, hmore⟩
      rcases Reading.map_eq_some hmore with ⟨as, has, rfl⟩
      rcases (ihRest has).of_after with ⟨k, hk, hlength⟩
      refine ⟨_, .cons (ihFirst ha) hk, ?_, ?_⟩
      · simp only [kinds, List.length_append, List.length_cons, List.length_nil]
        omega
      · simp only [kinds, List.length_append, List.length_cons, List.length_nil]
        omega
  | @chain l first rest ihFirst ihRest =>
      rw [meaning] at h
      rcases Reading.bind_eq_some h with ⟨a, between, ha, hmore⟩
      rcases Reading.map_eq_some hmore with ⟨links, hlinks, rfl⟩
      have hfirst : a.tokensOn l.operand ≤ first.kinds.length := ihFirst ha
      have hloose : l.operand.height ≤ (Rung.chain l).height := by cases l <;> decide
      rw [kinds, List.length_append]
      calc
        (applyAll a links).tokensOn (.chain l) ≤ a.tokensOn (.chain l) + rest.kinds.length :=
          Total.applyAll (Node.tokensOn · (.chain l)) (ihRest hlinks) a
        _ ≤ a.tokensOn l.operand + rest.kinds.length :=
          Nat.add_le_add_right (a.tokensOn_mono hloose) _
        _ ≤ first.kinds.length + rest.kinds.length := Nat.add_le_add_right hfirst _
  | @link l j right ihRight =>
      rw [meaning] at h
      rcases Reading.map_eq_some h with ⟨y, hy, rfl⟩
      have hright : y.tokensOn l.operand ≤ right.kinds.length := ihRight hy
      intro x
      rw [Node.tokensOn_joint, kinds, List.length_cons]
      omega
  | not x ihX =>
      rw [meaning] at h
      rcases Reading.map_eq_some h with ⟨y, hy, rfl⟩
      have hx : y.tokensOn .inversion ≤ x.kinds.length := ihX hy
      exact Nat.succ_le_succ hx
  | compared x ihX =>
      have hx : m.tokensOn .comparison ≤ x.kinds.length := ihX h
      exact Nat.le_trans (m.tokensOn_mono (by decide)) hx
  | comparison left right ihLeft ihRight =>
      rw [meaning] at h
      rcases Reading.bind_eq_some h with ⟨x, between, hx, hmore⟩
      rcases Reading.map_eq_some hmore with ⟨f, hf, rfl⟩
      have hleft : x.tokensOn (.chain .sum) ≤ left.kinds.length := ihLeft hx
      have hright := ihRight hf
      rw [kinds, List.length_append]
      cases f with
      | none =>
          have hloose : x.tokensOn .comparison ≤ x.tokensOn (.chain .sum) :=
            x.tokensOn_mono (by decide)
          exact Nat.le_trans hloose (Nat.le_add_right_of_le hleft)
      | some f =>
          have hadds := hright f rfl x
          exact Nat.le_trans hadds (Nat.add_le_add_right hleft _)
  | relation op right ihRight =>
      rw [meaning] at h
      rcases Reading.map_eq_some h with ⟨y, hy, rfl⟩
      have hright : y.tokensOn (.chain .sum) ≤ right.kinds.length := ihRight hy
      intro x
      rw [Node.tokensOn_comparison, kinds, List.length_cons]
      omega
  | signed sign x ihX =>
      rw [meaning] at h
      rcases Reading.map_eq_some h with ⟨y, hy, rfl⟩
      have hx : y.tokensOn .factor ≤ x.kinds.length := ihX hy
      exact Nat.succ_le_succ hx
  | unsigned x ihX =>
      have hx : m.tokensOn .primary ≤ x.kinds.length := ihX h
      exact Nat.le_trans (m.tokensOn_mono (by decide)) hx
  | literal v =>
      rcases Reading.eq_of_pure_eq_some h with ⟨rfl, -⟩
      cases v <;> exact Nat.le_refl 1
  | reference p applied ihP ihApplied =>
      rw [meaning] at h
      rcases Reading.bind_eq_some h with ⟨path, between, hp, hmore⟩
      rcases Reading.bind_eq_some hmore with ⟨call, between', hcall, hx⟩
      have hpath : (Kind.dotted (path.1 :: path.2)).length = p.kinds.length := ihP hp
      have happlied := ihApplied hcall
      rw [kinds, List.length_append]
      cases call with
      | none =>
          rcases Reading.eq_of_pure_eq_some hx with ⟨rfl, rfl⟩
          exact Nat.le_add_right_of_le (Nat.le_of_eq hpath)
      | some call =>
          rcases Reading.map_eq_some hx with ⟨y, hy, rfl⟩
          rcases happlied call rfl with ⟨k, j, hargs, hcalls, hlength⟩
          rcases length_callee hy with ⟨hcallable, hle⟩
          have hall := (tokensOn_applyAll (x := y) hcalls).2 hcallable
          show (applyAll y call.2).tokensOn .primary ≤ _
          omega
  | group x calls ihX ihCalls =>
      rw [meaning] at h
      rcases Reading.bind_eq_some h with ⟨y, between, hy, hmore⟩
      rcases Reading.map_eq_some hmore with ⟨fs, hfs, rfl⟩
      have hx : y.kinds.length ≤ x.kinds.length := y.tokensOn_expression ▸ ihX hy
      have hall := (tokensOn_applyAll (x := y) (ihCalls hfs)).1
      show (applyAll y fs).tokensOn .primary ≤ _
      simp only [kinds, List.length_append, List.length_cons]
      omega
  | application args calls ihArgs ihCalls =>
      rw [meaning] at h
      rcases Reading.bind_eq_some h with ⟨xs, between, hxs, hmore⟩
      rcases Reading.map_eq_some hmore with ⟨fs, hfs, rfl⟩
      rw [kinds, List.length_append]
      exact ⟨_, _, length_kindsOfArgs (ihArgs hxs), ihCalls hfs, rfl⟩
  | call name args ihName ihArgs =>
      rw [meaning] at h
      rcases Reading.bind_eq_some h with ⟨n, between, hn, hmore⟩
      rcases Reading.map_eq_some hmore with ⟨xs, hxs, rfl⟩
      have hname : name.kinds.length = 1 := ihName hn
      have hargs := length_kindsOfArgs (ihArgs hxs)
      intro x
      refine ⟨rfl, ?_⟩
      rw [Node.tokensCalled_call]
      simp only [kinds, List.length_append, List.length_cons]
      omega
  | _ => trivial

end Phrase

variable {classes after : List Class} {x : Node}

/-- No phrase that stands for an expression has fewer tokens than the printed one. -/
theorem length_kinds_le {d : Phrase .expression} (h : d.meaning classes = some (x, after)) :
    x.kinds.length ≤ d.kinds.length :=
  x.tokensOn_expression ▸ d.needs h

/-- Where an operand is printed in parentheses, it is not read from its tokens without them. -/
theorem not_writes_bare {r : Rung} (h : x.standsOn r = false) :
    ¬ Writes classes (.expr r) x.kinds x := by
  rintro ⟨d, hkinds, hd⟩
  have hle : x.tokensOn r ≤ d.kinds.length := d.needs hd
  rw [Node.tokensOn_eq_add_two h, hkinds] at hle
  omega

/-- Where the receiver of a call is printed in parentheses, no call stands behind its bare tokens. -/
theorem not_leads_bare (h : x.isCallable = false) : ¬ Leads classes x.kinds x := by
  intro hleads
  have hnone : Writes classes (.list .expression) [.punct .leftParen, .punct .rightParen] [] :=
    ⟨.noItems, rfl, rfl⟩
  rcases (hleads.call "m" hnone).writes with ⟨d, hkinds, hd⟩
  have hle : (Node.call x "m" []).tokensOn .primary ≤ d.kinds.length := d.needs hd
  have hbare : ¬x.isCallable = true := by simp [h]
  have hcalled : (Node.call x "m" []).isCallable = true := rfl
  -- The call is printed with two tokens more than the bare ones would be.
  rw [(Node.tokens_of_isCallable hcalled).1, ← (Node.tokens_of_isCallable hcalled).2,
    Node.tokensCalled_call, Node.tokensCalled, Kind.length_enclosed, if_neg hbare, hkinds,
    List.length_append] at hle
  simp only [List.length_cons, List.length_nil, Node.kindsOfArgs] at hle
  omega

end Grammar

end Offside
