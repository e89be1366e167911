import Offside.Proofs.Grammar.Context
import Offside.Proofs.Grammar.Unambiguity

/-!
# Completeness — every phrase is read

This file proves that every parser reads the phrases of its symbol: where the tokens ahead are those of a
phrase with a meaning, and the token after them does not continue it, the parser gives that meaning and
stands before that token.  An allowance above the number of tokens of the phrase suffices.
-/

namespace Offside
namespace Grammar

/-! ## First tokens -/

theorem Symbol.starts_dedent (s : Symbol) : s.starts .dedent = false := by
  induction s with
  | many s ih => exact ih
  | option s ih => exact ih
  | expr r =>
      cases r with
      | chain l => cases l <;> rfl
      | _ => rfl
  | link l => cases l <;> rfl
  | _ => rfl

theorem Phrase.exists_head {s : Symbol} (d : Phrase s) (hs : s.nullable = false) :
    ∃ k ks, d.kinds = k :: ks ∧ s.starts k = true := by
  cases hd : d.kinds with
  | nil =>
      have hne : [Kind.dedent] ≠ d.kinds ++ [.dedent] := d.heads.ne hs s.starts_dedent
      rw [hd] at hne
      exact absurd rfl hne
  | cons k ks =>
      rcases d.heads .dedent [] with ⟨k₁, ks₁, h₁, hstart | ⟨hnull, _⟩⟩
      · rw [hd] at h₁
        cases h₁
        exact ⟨k, ks, rfl, hstart⟩
      · rw [hs] at hnull
        cases hnull

theorem Phrase.length_pos {s : Symbol} (d : Phrase s) (hs : s.nullable = false) :
    0 < d.kinds.length := by
  rcases d.exists_head hs with ⟨k, ks, hd, _⟩
  rw [hd]
  exact Nat.succ_pos _

/-- The first token of a phrase and what follows it, where the phrase may be empty. -/
theorem Phrase.exists_first {s : Symbol} (d : Phrase s) {stops : Kind → Bool} {k : Kind}
    (hstart : ∀ k, s.starts k = true → stops k = true) (hk : stops k = true) (ks : List Kind) :
    ∃ k' ks', d.kinds ++ k :: ks = k' :: ks' ∧ stops k' = true := by
  rcases d.heads k ks with ⟨k', ks', hks', hstarts | ⟨_, rfl⟩⟩
  · exact ⟨k', ks', hks', hstart k' hstarts⟩
  · exact ⟨k', ks', hks', hk⟩

/-- Before a phrase the parser sees a token that starts it. -/
theorem Before.starts_current {s : Symbol} {d : Phrase s} {ks : List Kind} {classes : List Class}
    {st : ParseState Stream} (h : Before (d.kinds ++ ks) classes st) (hs : s.nullable = false) :
    s.starts st.current.kind = true := by
  rcases d.exists_head hs with ⟨k, ks', hd, hstart⟩
  rw [hd] at h
  exact h.current ▸ hstart

/-- The parser reads every phrase of `s` with fewer than `n` tokens before a token that `stops`
accepts. -/
def Complete {α : Type} (s : Symbol) (stops : Kind → Bool) (n : Nat) (result : s.Meaning → α)
    (p : Parser Stream α) : Prop :=
  ∀ ⦃d : Phrase s⦄ ⦃k : Kind⦄ ⦃ks : List Kind⦄ ⦃classes after : List Class⦄ ⦃m : s.Meaning⦄
    ⦃st : ParseState Stream⦄,
    d.kinds.length < n → stops k = true → d.meaning classes = some (m, after) →
      Before (d.kinds ++ k :: ks) classes st →
        ∃ t, p st = .ok (result m) t ∧ Before (k :: ks) after t

theorem Complete.mono {α : Type} {s : Symbol} {stops : Kind → Bool} {n n' : Nat}
    {result : s.Meaning → α} {p : Parser Stream α} (hp : Complete s stops n result p) (hn : n' ≤ n) :
    Complete s stops n' result p :=
  fun _ _ _ _ _ _ _ hlen => hp (Nat.lt_of_lt_of_le hlen hn)

/-- A phrase is read where another phrase follows it. -/
theorem Complete.before {α : Type} {s t : Symbol} {n : Nat} {result : s.Meaning → α}
    {p : Parser Stream α} (hp : Complete s s.stops n result p) (hst : s.Precedes t) {x : Phrase s}
    {y : Phrase t} {k : Kind} {ks : List Kind} {classes after : List Class} {m : s.Meaning}
    {st : ParseState Stream} (hlen : x.kinds.length < n) (hk : t.stops k = true)
    (hx : x.meaning classes = some (m, after))
    (h : Before (x.kinds ++ (y.kinds ++ k :: ks)) classes st) :
    ∃ u, p st = .ok (result m) u ∧ Before (y.kinds ++ k :: ks) after u := by
  rcases hst.stops_head y hk with ⟨k', ks', hks', hk'⟩
  rw [hks'] at h ⊢
  exact hp hlen hk' hx h

/-! ## Repetition -/

theorem complete_identifier (stops : Kind → Bool) (n : Nat) :
    Complete .name stops n id Parser.identifier := by
  intro d k ks classes after m st _ _ hm h
  cases d with
  | name name =>
      rcases Reading.eq_of_pure_eq_some hm with ⟨rfl, rfl⟩
      exact h.exists_identifier

theorem complete_whileKind {s : Symbol} {itemStops stops starts : Kind → Bool} {n : Nat}
    {p : Parser Stream s.Meaning} (hp : Complete s itemStops n id p) (hs : s.nullable = false)
    (hstart : ∀ k, s.starts k = true → starts k = true ∧ itemStops k = true)
    (hstop : ∀ k, stops k = true → starts k = false ∧ itemStops k = true) {i : Nat}
    (hi : n ≤ i) : Complete (.many s) stops n id (Parser.whileKind starts p i) := by
  intro d k ks classes after m st hlen hk hm h
  -- The loop counts its own allowance down; every item takes at least one token of the phrase.
  have hfuel : d.kinds.length < i := Nat.lt_of_lt_of_le hlen hi
  clear hi
  induction i generalizing d st classes m with
  | zero => exact absurd hfuel (Nat.not_lt_zero _)
  | succ i ih =>
      cases d with
      | done =>
          rcases Reading.eq_of_pure_eq_some hm with ⟨rfl, rfl⟩
          refine ⟨st, ?_, h⟩
          rw [Parser.whileKind, kind_bind, h.current, (hstop k hk).1]
          rfl
      | more x xs =>
          rw [Phrase.meaning] at hm
          rcases Reading.bind_eq_some hm with ⟨a, between, hx, hm⟩
          rcases Reading.bind_eq_some hm with ⟨as, _, hxs, hm⟩
          rcases Reading.eq_of_pure_eq_some hm with ⟨rfl, rfl⟩
          have hpos := x.length_pos hs
          rw [Phrase.kinds, List.length_append] at hlen hfuel
          rw [Phrase.kinds, List.append_assoc] at h
          have hgoes : starts st.current.kind = true := (hstart _ (h.starts_current hs)).1
          -- What stands after the item stops it, be it another item or the end.
          rcases xs.exists_first (fun k hk => (hstart k hk).2) (hstop k hk).2 ks
            with ⟨k', ks', hks', hk'⟩
          rw [hks'] at h
          rcases hp (by omega) hk' hx h with ⟨u, hu, hbetween⟩
          rw [← hks'] at hbetween
          rcases ih (by omega) hxs hbetween (by omega) with ⟨t, ht, hafter⟩
          refine ⟨t, ?_, hafter⟩
          rw [Parser.whileKind, kind_bind, hgoes, if_pos rfl, bind_of_ok hu, bind_of_ok ht]
          rfl

theorem complete_after {s : Symbol} {stops : Kind → Bool} {n : Nat} {p : Parser Stream s.Meaning}
    (hp : Complete s stops n id p) (mark : Punct) :
    Complete (.after mark s) stops n id (do Parser.advance; p) := by
  intro d k ks classes after m st hlen hk hm h
  cases d with
  | after _ x =>
      rw [Phrase.kinds, List.length_cons] at hlen
      rcases h.exists_advance nofun with ⟨u, hu, hbefore⟩
      rcases hp (by omega) hk hm hbefore with ⟨t, ht, hafter⟩
      exact ⟨t, (bind_of_ok hu).trans ht, hafter⟩

/-- The items have fewer tokens than the list by the parentheses. -/
theorem complete_parenthesized {s : Symbol} {itemStops : Kind → Bool} {n : Nat}
    {item : Parser Stream s.Meaning} (hitem : Complete s itemStops n id item) (hs : s.nullable = false)
    (hstart : s.starts (.punct .rightParen) = false) (hcomma : itemStops (.punct .comma) = true)
    (hclose : itemStops (.punct .rightParen) = true) {i : Nat} (hi : n ≤ i)
    {stops : Kind → Bool} :
    Complete (.list s) stops (n + 1) id (Parser.parenthesized item i) := by
  intro d k ks classes after m st hlen hk hm h
  cases d with
  | noItems =>
      rcases Reading.eq_of_pure_eq_some hm with ⟨rfl, rfl⟩
      rcases h.exists_expect nofun with ⟨u, hu, hbefore⟩
      rcases hbefore.exists_advance nofun with ⟨t, ht, hafter⟩
      refine ⟨t, ?_, hafter⟩
      rw [Parser.parenthesized, bind_of_ok hu, kind_bind, hbefore.current, if_pos rfl,
        bind_of_ok ht]
      rfl
  | items first rest =>
      rw [Phrase.meaning] at hm
      rcases Reading.bind_eq_some hm with ⟨a, between, hfirst, hm⟩
      rcases Reading.bind_eq_some hm with ⟨as, _, hrest, hm⟩
      rcases Reading.eq_of_pure_eq_some hm with ⟨rfl, rfl⟩
      simp only [Phrase.kinds, List.length_append, List.length_cons, List.length_nil] at hlen
      simp only [Phrase.kinds, List.cons_append, List.append_assoc, List.nil_append] at h
      rcases h.exists_expect nofun with ⟨u, hu, hbefore⟩
      have hcommas : ∀ k, (Symbol.after .comma s).starts k = true → itemStops k = true := by
        intro k hk
        rw [of_decide_eq_true hk, hcomma]
      have hopen : u.current.kind ≠ .punct .rightParen := by
        intro hparen
        have hstarts := hbefore.starts_current hs
        rw [hparen, hstart] at hstarts
        cases hstarts
      -- After the first item there is a comma or the closing parenthesis.
      rcases rest.exists_first hcommas hclose (k :: ks) with ⟨k', ks', hks', hk'⟩
      rw [hks'] at hbefore
      rcases hitem (by omega) hk' hfirst hbefore with ⟨v, hv, hbetween⟩
      rw [← hks'] at hbetween
      have hitems : Complete (.many (.after .comma s)) (· = .punct .rightParen) n id
          (Parser.whileKind (· = .punct .comma) (do Parser.advance; item) i) :=
        complete_whileKind (s := .after .comma s) (complete_after hitem .comma) rfl
          (fun k hk => ⟨hk, hcommas k hk⟩)
          (fun k hk => of_decide_eq_true (p := k = .punct .rightParen) hk ▸ ⟨rfl, hclose⟩) hi
      rcases hitems (by omega) rfl hrest hbetween with ⟨w, hw, hlast⟩
      rcases hlast.exists_expect nofun with ⟨t, ht, hafter⟩
      refine ⟨t, ?_, hafter⟩
      rw [Parser.parenthesized, bind_of_ok hu, kind_bind, if_neg hopen, bind_of_ok hv,
        bind_of_ok hw, bind_of_ok ht]
      rfl

/-- A token that stops the whole chain is no operator of its level. -/
theorem Level.op?_eq_none {l : Level} {k : Kind} (hk : (Symbol.expr (.chain l)).stops k = true) :
    l.op? k = none := by
  cases hop : l.op? k with
  | none => rfl
  | some f =>
      rcases l.exists_joint hop with ⟨j, rfl, -⟩
      have hlt : (Rung.chain l).rank < looseness j.kind := of_decide_eq_true hk
      rw [j.looseness_kind] at hlt
      exact absurd hlt (Nat.lt_irrefl _)

theorem complete_leftChain (l : Level) {n : Nat} {operand : Parser Stream Node}
    (hoperand : Complete (.expr l.operand) (Symbol.expr l.operand).stops n id operand) {i : Nat}
    (hi : n ≤ i) (left : Node) :
    Complete (.many (.link l)) (Symbol.expr (.chain l)).stops n (applyAll left)
      (Parser.leftChain operand l.op? i left) := by
  intro d k ks classes after m st hlen hk hm h
  have hfuel : d.kinds.length < i := Nat.lt_of_lt_of_le hlen hi
  clear hi
  induction i generalizing left d st classes m with
  | zero => exact absurd hfuel (Nat.not_lt_zero _)
  | succ i ih =>
      cases d with
      | done =>
          rcases Reading.eq_of_pure_eq_some hm with ⟨rfl, rfl⟩
          refine ⟨st, ?_, h⟩
          rw [Parser.leftChain, kind_bind, h.current, Level.op?_eq_none hk]
          rfl
      | more x xs =>
          rw [Phrase.meaning] at hm
          rcases Reading.bind_eq_some hm with ⟨link, between, hx, hm⟩
          rcases Reading.bind_eq_some hm with ⟨links, _, hxs, hm⟩
          rcases Reading.eq_of_pure_eq_some hm with ⟨rfl, rfl⟩
          cases x with
          | link j right =>
              rw [Phrase.meaning] at hx
              rcases Reading.bind_eq_some hx with ⟨y, _, hright, hx⟩
              rcases Reading.eq_of_pure_eq_some hx with ⟨rfl, rfl⟩
              simp only [Phrase.kinds, List.cons_append, List.length_cons, List.length_append]
                at hlen hfuel
              simp only [Phrase.kinds, List.cons_append, List.append_assoc] at h
              rcases h.exists_advance j.kind_ne_endOfInput with ⟨u, hu, hbefore⟩
              -- The tree so far becomes the left side: this is where the level associates.
              rcases hoperand.before (Symbol.precedes_links l) (by omega) (Symbol.stops_links hk)
                hright hbefore with ⟨v, hv, hbetween⟩
              rcases ih (j.node left y) (by omega) hxs hbetween (by omega) with ⟨t, ht, hafter⟩
              refine ⟨t, ?_, hafter⟩
              rw [Parser.leftChain, kind_bind, h.current, l.op?_kind j]
              exact (bind_of_ok hu).trans ((bind_of_ok hv).trans ht)

/-- An operand and the chain after it. -/
theorem complete_chain (l : Level) {n : Nat} {operand : Parser Stream Node}
    (hoperand : Complete (.expr l.operand) (Symbol.expr l.operand).stops n id operand) :
    Complete (.expr (.chain l)) (Symbol.expr (.chain l)).stops n id
      (operand >>= Parser.leftChain operand l.op? n) := by
  intro d k ks classes after m st hlen hk hm h
  cases d with
  | chain first rest =>
      rw [Phrase.meaning] at hm
      rcases Reading.bind_eq_some hm with ⟨x, between, hfirst, hm⟩
      rcases Reading.bind_eq_some hm with ⟨links, _, hrest, hm⟩
      rcases Reading.eq_of_pure_eq_some hm with ⟨rfl, rfl⟩
      rw [Phrase.kinds, List.length_append] at hlen
      rw [Phrase.kinds, List.append_assoc] at h
      rcases hoperand.before (Symbol.precedes_links l) (by omega) (Symbol.stops_links hk) hfirst h
        with ⟨u, hu, hbetween⟩
      rcases complete_leftChain l hoperand (Nat.le_refl n) x (by omega) hk hrest hbetween
        with ⟨t, ht, hafter⟩
      exact ⟨t, (bind_of_ok hu).trans ht, hafter⟩

/-! ## Paths and calls -/

theorem complete_path (n : Nat) : Complete .path Symbol.path.stops n id (Parser.path n) := by
  intro d k ks classes after m st hlen hk hm h
  cases d with
  | path first rest =>
      rw [Phrase.meaning] at hm
      rcases Reading.bind_eq_some hm with ⟨x, between, hfirst, hm⟩
      rcases Reading.bind_eq_some hm with ⟨xs, _, hrest, hm⟩
      rcases Reading.eq_of_pure_eq_some hm with ⟨rfl, rfl⟩
      rw [Phrase.kinds, List.length_append] at hlen
      rw [Phrase.kinds, List.append_assoc] at h
      cases first with
      | name name =>
          rcases Reading.eq_of_pure_eq_some hfirst with ⟨rfl, rfl⟩
          rcases h.exists_identifier with ⟨u, hu, hbetween⟩
          have hnames : Complete (.many (.after .dot .name)) Symbol.path.stops n id
              (Parser.whileKind (· = .punct .dot) (do Parser.advance; Parser.identifier) n) :=
            complete_whileKind (s := .after .dot .name)
              (complete_after (complete_identifier (fun _ => true) n) .dot) rfl
              (fun k hk => ⟨hk, rfl⟩) (fun k hk => ⟨by simpa using hk, rfl⟩) (Nat.le_refl n)
          rcases hnames (by omega) hk hrest hbetween with ⟨t, ht, hafter⟩
          exact ⟨t, (bind_of_ok hu).trans ((bind_of_ok ht).trans rfl), hafter⟩

section Levels

variable {inner : Parser Stream Node} {n : Nat}

/-- The arguments of a call, in parentheses. -/
theorem complete_arguments {stops : Kind → Bool}
    (hinner : Complete .expression Symbol.expression.stops n id inner) {i : Nat} (hi : n ≤ i) :
    Complete (.list .expression) stops (n + 1) id (Parser.parenthesized inner i) :=
  complete_parenthesized hinner rfl rfl rfl rfl hi

theorem complete_methodCalls
    (hinner : Complete .expression Symbol.expression.stops n id inner) {i : Nat} (hi : n < i)
    (receiver : Node) :
    Complete (.many .call) (· ≠ .punct .dot) (n + 1) (applyAll receiver)
      (Parser.methodCalls inner i receiver) := by
  intro d k ks classes after m st hlen hk hm h
  have hfuel : d.kinds.length < i := Nat.lt_of_lt_of_le hlen hi
  clear hi
  induction i generalizing receiver d st classes m with
  | zero => exact absurd hfuel (Nat.not_lt_zero _)
  | succ i ih =>
      cases d with
      | done =>
          rcases Reading.eq_of_pure_eq_some hm with ⟨rfl, rfl⟩
          refine ⟨st, ?_, h⟩
          rw [Parser.methodCalls, kind_bind, h.current, if_neg (of_decide_eq_true hk)]
          rfl
      | more x xs =>
          rw [Phrase.meaning] at hm
          rcases Reading.bind_eq_some hm with ⟨f, between, hx, hm⟩
          rcases Reading.bind_eq_some hm with ⟨fs, _, hxs, hm⟩
          rcases Reading.eq_of_pure_eq_some hm with ⟨rfl, rfl⟩
          cases x with
          | call name list =>
              cases name with
              | name name =>
                  rw [Phrase.meaning, Phrase.meaning, Reading.bind_of_some rfl] at hx
                  rcases Reading.bind_eq_some hx with ⟨args, _, hargs, hx⟩
                  rcases Reading.eq_of_pure_eq_some hx with ⟨rfl, rfl⟩
                  simp only [Phrase.kinds, List.cons_append, List.nil_append, List.append_assoc,
                    List.length_cons, List.length_append] at hlen hfuel h
                  -- The list is read with what is left of the loop's allowance.
                  have hlist : Complete (.list .expression) (Symbol.list .expression).stops
                      (min n i + 1) id (Parser.parenthesized inner i) :=
                    complete_arguments (hinner.mono (Nat.min_le_left n i)) (Nat.min_le_right n i)
                  rcases h.exists_advance nofun with ⟨u, hu, hu'⟩
                  rcases hu'.exists_identifier with ⟨v, hv, hv'⟩
                  rcases hlist.before (Symbol.precedes_of_stops fun _ => rfl) (by omega)
                    (Symbol.stops_calls (of_decide_eq_true hk)) hargs hv' with ⟨w, hw, hw'⟩
                  rcases ih (.call receiver name args) (by omega) hxs hw' (by omega)
                    with ⟨t, ht, hafter⟩
                  refine ⟨t, ?_, hafter⟩
                  rw [Parser.methodCalls, kind_bind, h.current, if_pos rfl, bind_of_ok hu,
                    bind_of_ok hv, bind_of_ok hw]
                  exact ht

theorem exists_callTail (hinner : Complete .expression Symbol.expression.stops n id inner)
    {called : String × List String} (line : Nat) {d : Phrase .application} {k : Kind}
    {ks : List Kind} {classes after : List Class} {args : List Node} {calls : List (Node → Node)}
    {call : Node} {st : ParseState Stream} (hlen : d.kinds.length < n + 1)
    (hk : Symbol.application.stops k = true)
    (hd : d.meaning classes = some ((args, calls), after))
    (hcallee : Reading.callee (object called) (lastName called) args after = some (call, after))
    (h : Before (d.kinds ++ k :: ks) classes st) :
    ∃ t, Parser.callTail inner (n + 1) called line st = .ok (applyAll call calls) t
      ∧ Before (k :: ks) after t := by
  cases d with
  | application list rest =>
      rw [Phrase.meaning] at hd
      rcases Reading.bind_eq_some hd with ⟨args, between, hargs, hd⟩
      rcases Reading.bind_eq_some hd with ⟨calls, _, hcalls, hd⟩
      rcases Reading.eq_of_pure_eq_some hd with ⟨hd, rfl⟩
      cases hd
      -- The calls declare no class, so that the callee is found in the classes before them.
      cases rest.keeps rfl hcalls
      rw [Phrase.kinds, List.length_append] at hlen
      rw [Phrase.kinds, List.append_assoc] at h
      have hlist : Complete (.list .expression) (Symbol.list .expression).stops (n + 1) id
          (Parser.parenthesized inner (n + 1)) :=
        complete_arguments hinner (Nat.le_succ n)
      rcases hlist.before (Symbol.precedes_of_stops fun _ => rfl) (by omega)
        (Symbol.stops_calls (of_decide_eq_true hk)) hargs h with ⟨u, hu, hu'⟩
      have hbuild := (hu'.buildCall_eq_ok_iff line).mpr ⟨hcallee, rfl⟩
      rcases complete_methodCalls hinner (Nat.lt_succ_self n) call (by omega) hk hcalls hu'
        with ⟨t, ht, hafter⟩
      refine ⟨t, ?_, hafter⟩
      rw [Parser.callTail, bind_of_ok hu, splitLast_eq]
      exact (bind_of_ok hbuild).trans ht

/-! ## Levels of expressions -/

theorem exists_group (hinner : Complete .expression Symbol.expression.stops n id inner)
    {x : Phrase .expression} {calls : Phrase (.many .call)} {k : Kind} {ks : List Kind}
    {classes after : List Class} {m : Node} {st : ParseState Stream}
    (hlen : (Phrase.group x calls).kinds.length < n + 1) (hk : k ≠ .punct .dot)
    (hm : (Phrase.group x calls).meaning classes = some (m, after))
    (h : Before ((Phrase.group x calls).kinds ++ k :: ks) classes st) :
    ∃ t, Parser.group inner (n + 1) st = .ok m t ∧ Before (k :: ks) after t := by
  rw [Phrase.meaning] at hm
  rcases Reading.bind_eq_some hm with ⟨y, between, hx, hm⟩
  rcases Reading.bind_eq_some hm with ⟨fs, _, hcalls, hm⟩
  rcases Reading.eq_of_pure_eq_some hm with ⟨rfl, rfl⟩
  simp only [Phrase.kinds, List.cons_append, List.append_assoc, List.length_cons,
    List.length_append] at hlen h
  rcases h.exists_expect nofun with ⟨u, hu, hu'⟩
  rcases hinner (by omega) rfl hx hu' with ⟨v, hv, hv'⟩
  rcases hv'.exists_expect nofun with ⟨w, hw, hw'⟩
  rcases complete_methodCalls hinner (Nat.lt_succ_self n) y (by omega) (decide_eq_true hk) hcalls hw'
    with ⟨t, ht, hafter⟩
  exact ⟨t, (bind_of_ok hu).trans ((bind_of_ok hv).trans ((bind_of_ok hw).trans ht)), hafter⟩

theorem exists_reference (hinner : Complete .expression Symbol.expression.stops n id inner)
    {p : Phrase .path} {applied : Phrase (.option .application)} {k : Kind} {ks : List Kind}
    {classes after : List Class} {m : Node} {st : ParseState Stream}
    (hlen : (Phrase.reference p applied).kinds.length < n + 1)
    (hk : (Symbol.expr .primary).stops k = true)
    (hm : (Phrase.reference p applied).meaning classes = some (m, after))
    (h : Before ((Phrase.reference p applied).kinds ++ k :: ks) classes st) :
    ∃ t, Parser.reference inner (n + 1) st = .ok m t ∧ Before (k :: ks) after t := by
  rw [Phrase.meaning] at hm
  rcases Reading.bind_eq_some hm with ⟨called, between, hp, hm⟩
  rw [Phrase.kinds, List.length_append] at hlen
  rw [Phrase.kinds, List.append_assoc] at h
  rcases (complete_path (n + 1)).before Symbol.precedes_option_application (by omega)
    (Symbol.stops_option_application hk) hp h with ⟨u, hu, hu'⟩
  cases applied with
  | absent =>
      rcases Reading.eq_of_pure_eq_some hm with ⟨rfl, rfl⟩
      refine ⟨u, ?_, hu'⟩
      rw [Parser.reference, line_bind, bind_of_ok hu, kind_bind, hu'.current,
        if_neg (Symbol.ne_of_stops_primary hk).2]
      rfl
  | present application =>
      rw [Phrase.meaning] at hm
      rcases Reading.bind_eq_some hm with ⟨_, _, hpresent, hm⟩
      rcases Reading.bind_eq_some hpresent with ⟨⟨args, calls⟩, _, happlication, hpresent⟩
      rcases Reading.eq_of_pure_eq_some hpresent with ⟨rfl, rfl⟩
      rcases Reading.bind_eq_some hm with ⟨call, _, hcallee, hm⟩
      rcases Reading.eq_of_pure_eq_some hm with ⟨rfl, rfl⟩
      cases Reading.Keeps.callee _ _ _ hcallee
      rw [Phrase.kinds] at hlen hu'
      rcases exists_callTail hinner st.current.place.line (by omega)
        (decide_eq_true (Symbol.ne_of_stops_primary hk).1) happlication hcallee hu'
        with ⟨t, ht, hafter⟩
      refine ⟨t, ?_, hafter⟩
      have hopen : u.current.kind = .punct .leftParen := of_decide_eq_true (hu'.starts_current rfl)
      rw [Parser.reference, line_bind, bind_of_ok hu, kind_bind, if_pos hopen]
      exact ht

theorem complete_primary (hinner : Complete .expression Symbol.expression.stops n id inner) :
    Complete (.expr .primary) (Symbol.expr .primary).stops (n + 1) id
      (Parser.primary inner (n + 1)) := by
  intro d k ks classes after m st hlen hk hm h
  cases d with
  | literal v =>
      rcases Reading.eq_of_pure_eq_some hm with ⟨rfl, rfl⟩
      rcases h.exists_advance v.kind_ne_endOfInput with ⟨t, ht, hafter⟩
      refine ⟨t, ?_, hafter⟩
      rw [Parser.primary, kind_bind, h.current, literal?_kind]
      exact bind_of_ok ht
  | group x calls =>
      rcases exists_group hinner hlen (Symbol.ne_of_stops_primary hk).1 hm h with ⟨t, ht, hafter⟩
      refine ⟨t, ?_, hafter⟩
      rw [Parser.primary, kind_bind, h.current]
      show (Parser.kind >>= _) st = _
      rw [kind_bind, h.current]
      exact ht
  | reference p applied =>
      rcases exists_reference hinner hlen hk hm h with ⟨t, ht, hafter⟩
      refine ⟨t, ?_, hafter⟩
      cases p with
      | path first rest =>
          cases first with
          | name name =>
              rw [Parser.primary, kind_bind, h.current]
              show (Parser.kind >>= _) st = _
              rw [kind_bind, h.current]
              exact ht

theorem complete_factor (hinner : Complete .expression Symbol.expression.stops n id inner) {i : Nat}
    (hi : i ≤ n + 1) :
    Complete (.expr .factor) (Symbol.expr .factor).stops i id (Parser.factor inner i) := by
  intro d k ks classes after m st hlen hk hm h
  induction i generalizing d st classes m with
  | zero => exact absurd hlen (Nat.not_lt_zero _)
  | succ i ih =>
      cases d with
      | signed sign x =>
          rw [Phrase.meaning] at hm
          rcases Reading.bind_eq_some hm with ⟨y, _, hx, hm⟩
          rcases Reading.eq_of_pure_eq_some hm with ⟨rfl, rfl⟩
          rw [Phrase.kinds, List.length_cons] at hlen
          rcases h.exists_advance nofun with ⟨u, hu, hu'⟩
          rcases ih (by omega) (by omega) hx hu' with ⟨t, ht, hafter⟩
          refine ⟨t, ?_, hafter⟩
          rw [Parser.factor, kind_bind, h.current, sign?_eq_some_iff.mpr rfl]
          exact (bind_of_ok hu).trans ((bind_of_ok ht).trans rfl)
      | unsigned x =>
          -- A primary starts with no sign, so that the parser takes the same branch.
          have hstart := Before.starts_current (d := x) h rfl
          have hsign : Parser.sign? st.current.kind = none := by
            cases hsome : Parser.sign? st.current.kind with
            | none => rfl
            | some sign =>
                rw [sign?_eq_some_iff.mp hsome] at hstart
                cases sign <;> cases hstart
          rcases complete_primary (hinner.mono (Nat.le_of_succ_le_succ hi)) hlen hk hm h
            with ⟨t, ht, hafter⟩
          refine ⟨t, ?_, hafter⟩
          rw [Parser.factor, kind_bind, hsign]
          exact ht

theorem complete_product (hinner : Complete .expression Symbol.expression.stops n id inner) :
    Complete (.expr (.chain .product)) (Symbol.expr (.chain .product)).stops (n + 1) id
      (Parser.product inner (n + 1)) :=
  complete_chain .product (complete_factor hinner (Nat.le_refl _))

theorem complete_sum (hinner : Complete .expression Symbol.expression.stops n id inner) :
    Complete (.expr (.chain .sum)) (Symbol.expr (.chain .sum)).stops (n + 1) id
      (Parser.sum inner (n + 1)) :=
  complete_chain .sum (complete_product hinner)

/-- A token that stops a comparison is no relation. -/
theorem relation?_eq_none {k : Kind} (hk : (Symbol.expr .comparison).stops k = true) :
    Parser.relation? k = none := by
  cases hop : Parser.relation? k with
  | none => rfl
  | some op =>
      have hlt : (Rung.comparison).rank < looseness k := of_decide_eq_true hk
      rw [relation?_eq_some_iff.mp hop, looseness_relationMark] at hlt
      exact absurd hlt (Nat.lt_irrefl _)

theorem complete_comparison (hinner : Complete .expression Symbol.expression.stops n id inner) :
    Complete (.expr .comparison) (Symbol.expr .comparison).stops (n + 1) id
      (Parser.comparison inner (n + 1)) := by
  intro d k ks classes after m st hlen hk hm h
  cases d with
  | comparison left right =>
      rw [Phrase.meaning] at hm
      rcases Reading.bind_eq_some hm with ⟨x, between, hleft, hm⟩
      rcases Reading.bind_eq_some hm with ⟨f, _, hright, hm⟩
      rcases Reading.eq_of_pure_eq_some hm with ⟨rfl, rfl⟩
      rw [Phrase.kinds, List.length_append] at hlen
      rw [Phrase.kinds, List.append_assoc] at h
      rcases (complete_sum hinner).before Symbol.precedes_relation (by omega)
        (Symbol.stops_relation hk) hleft h with ⟨u, hu, hu'⟩
      cases right with
      | absent =>
          rcases Reading.eq_of_pure_eq_some hright with ⟨rfl, rfl⟩
          refine ⟨u, ?_, hu'⟩
          rw [Parser.comparison, bind_of_ok hu, kind_bind, hu'.current, relation?_eq_none hk]
          rfl
      | present relation =>
          rw [Phrase.meaning] at hright
          rcases Reading.bind_eq_some hright with ⟨g, _, hrelation, hright⟩
          rcases Reading.eq_of_pure_eq_some hright with ⟨rfl, rfl⟩
          cases relation with
          | relation op y =>
              rw [Phrase.meaning] at hrelation
              rcases Reading.bind_eq_some hrelation with ⟨z, _, hy, hrelation⟩
              rcases Reading.eq_of_pure_eq_some hrelation with ⟨rfl, rfl⟩
              simp only [Phrase.kinds, List.length_cons, List.cons_append] at hlen hu'
              -- Comparisons do not chain: the right side is a sum, and a relation would not end it.
              have hsum : (Symbol.expr (.chain .sum)).stops k = true :=
                (Bool.and_eq_true_iff.mp (Symbol.stops_relation hk)).2
              rcases hu'.exists_advance nofun with ⟨v, hv, hv'⟩
              rcases complete_sum hinner (by omega) hsum hy hv' with ⟨t, ht, hafter⟩
              refine ⟨t, ?_, hafter⟩
              rw [Parser.comparison, bind_of_ok hu, kind_bind, hu'.current,
                relation?_eq_some_iff.mpr rfl]
              exact (bind_of_ok hv).trans ((bind_of_ok ht).trans rfl)

theorem complete_inversion (hinner : Complete .expression Symbol.expression.stops n id inner)
    {i : Nat} (hi : i ≤ n + 1) :
    Complete (.expr .inversion) (Symbol.expr .inversion).stops i id (Parser.inversion inner i) := by
  intro d k ks classes after m st hlen hk hm h
  induction i generalizing d st classes m with
  | zero => exact absurd hlen (Nat.not_lt_zero _)
  | succ i ih =>
      cases d with
      | not x =>
          rw [Phrase.meaning] at hm
          rcases Reading.bind_eq_some hm with ⟨y, _, hx, hm⟩
          rcases Reading.eq_of_pure_eq_some hm with ⟨rfl, rfl⟩
          rw [Phrase.kinds, List.length_cons] at hlen
          rcases h.exists_advance nofun with ⟨u, hu, hu'⟩
          rcases ih (by omega) (by omega) hx hu' with ⟨t, ht, hafter⟩
          refine ⟨t, ?_, hafter⟩
          rw [Parser.inversion, kind_bind, h.current, if_pos rfl]
          exact (bind_of_ok hu).trans ((bind_of_ok ht).trans rfl)
      | compared x =>
          -- A comparison does not start with the negation.
          have hstart := Before.starts_current (d := x) h rfl
          have hnot : st.current.kind ≠ .keyword .notKw := by
            intro hkind
            rw [hkind] at hstart
            cases hstart
          rcases complete_comparison (hinner.mono (Nat.le_of_succ_le_succ hi)) hlen hk hm h
            with ⟨t, ht, hafter⟩
          refine ⟨t, ?_, hafter⟩
          rw [Parser.inversion, kind_bind, if_neg hnot]
          exact ht

theorem complete_conjunction (hinner : Complete .expression Symbol.expression.stops n id inner) :
    Complete (.expr (.chain .and)) (Symbol.expr (.chain .and)).stops (n + 1) id
      (Parser.conjunction inner (n + 1)) :=
  complete_chain .and (complete_inversion hinner (Nat.le_refl _))

theorem complete_disjunction (hinner : Complete .expression Symbol.expression.stops n id inner) :
    Complete .expression Symbol.expression.stops (n + 1) id (Parser.disjunction inner (n + 1)) :=
  complete_chain .or (complete_conjunction hinner)

end Levels

theorem complete_expression (n : Nat) :
    Complete .expression Symbol.expression.stops n id (Parser.expression n) := by
  induction n with
  | zero => exact fun _ _ _ _ _ _ _ hlen => absurd hlen (Nat.not_lt_zero _)
  | succ n ih => exact complete_disjunction ih

/-! ## Simple statements -/

/-- A statement that starts with a path goes on as the token after the path says. -/
theorem simpleStatement_eq {n : Nat} {p : Phrase .path} {ks : List Kind} {classes : List Class}
    {st : ParseState Stream} (h : Before (p.kinds ++ ks) classes st) :
    Parser.simpleStatement n st = Parser.assignmentOrCall n st := by
  cases p with
  | path first rest =>
      cases first with
      | name name => rw [Parser.simpleStatement, kind_bind, h.current]

theorem exists_assign {n : Nat} {target : Phrase .path} {value : Phrase .expression} {k : Kind}
    {ks : List Kind} {classes after : List Class} {m : Node} {st : ParseState Stream}
    (hlen : (Phrase.assign target value).kinds.length < n)
    (hk : Symbol.expression.stops k = true)
    (hm : (Phrase.assign target value).meaning classes = some (m, after))
    (h : Before ((Phrase.assign target value).kinds ++ k :: ks) classes st) :
    ∃ t, Parser.assignmentOrCall n st = .ok m t ∧ Before (k :: ks) after t := by
  rw [Phrase.meaning] at hm
  rcases Reading.bind_eq_some hm with ⟨p, between, hp, hm⟩
  rcases Reading.bind_eq_some hm with ⟨x, _, hx, hm⟩
  rcases Reading.eq_of_pure_eq_some hm with ⟨rfl, rfl⟩
  simp only [Phrase.kinds, List.length_append, List.length_cons, List.append_assoc,
    List.cons_append] at hlen h
  rcases complete_path n (by omega) rfl hp h with ⟨u, hu, hu'⟩
  rcases hu'.exists_advance nofun with ⟨v, hv, hv'⟩
  rcases complete_expression n (by omega) hk hx hv' with ⟨t, ht, hafter⟩
  refine ⟨t, ?_, hafter⟩
  rw [Parser.assignmentOrCall, line_bind, bind_of_ok hu, kind_bind, hu'.current, if_pos rfl,
    bind_of_ok hv, bind_of_ok ht, id, id, assignment_eq]
  rfl

theorem exists_apply {n : Nat} {callee : Phrase .path} {applied : Phrase .application} {k : Kind}
    {ks : List Kind} {classes after : List Class} {m : Node} {st : ParseState Stream}
    (hlen : (Phrase.apply callee applied).kinds.length < n)
    (hk : Symbol.application.stops k = true)
    (hm : (Phrase.apply callee applied).meaning classes = some (m, after))
    (h : Before ((Phrase.apply callee applied).kinds ++ k :: ks) classes st) :
    ∃ t, Parser.assignmentOrCall n st = .ok m t ∧ Before (k :: ks) after t := by
  cases n with
  | zero => exact absurd hlen (Nat.not_lt_zero _)
  | succ n =>
      rw [Phrase.meaning] at hm
      rcases Reading.bind_eq_some hm with ⟨p, between, hp, hm⟩
      rcases Reading.bind_eq_some hm with ⟨⟨args, calls⟩, _, happlied, hm⟩
      rcases Reading.bind_eq_some hm with ⟨call, _, hcallee, hm⟩
      rcases Reading.eq_of_pure_eq_some hm with ⟨rfl, rfl⟩
      cases Reading.Keeps.callee _ _ _ hcallee
      rw [Phrase.kinds, List.length_append] at hlen
      rw [Phrase.kinds, List.append_assoc] at h
      rcases (complete_path (n + 1)).before Symbol.precedes_application (by omega) hk hp h
        with ⟨u, hu, hu'⟩
      rcases exists_callTail ((complete_expression (n + 1)).mono (Nat.le_succ n))
        st.current.place.line (by omega) hk happlied hcallee hu' with ⟨t, ht, hafter⟩
      refine ⟨t, ?_, hafter⟩
      -- The token after the path decides between a call and an assignment.
      have hopen : u.current.kind = .punct .leftParen := of_decide_eq_true (hu'.starts_current rfl)
      have hassign : u.current.kind ≠ .punct .assign := by
        rw [hopen]
        nofun
      rw [Parser.assignmentOrCall, line_bind, bind_of_ok hu, kind_bind, if_neg hassign]
      exact ht

theorem complete_simpleStatement (n : Nat) :
    Complete .simple Symbol.simple.stops n id (Parser.simpleStatement n) := by
  intro d k ks classes after m st hlen hk hm h
  have hk : k = .newline := of_decide_eq_true hk
  subst hk
  cases d with
  | ret x =>
      rw [Phrase.meaning] at hm
      rcases Reading.bind_eq_some hm with ⟨y, _, hx, hm⟩
      rcases Reading.eq_of_pure_eq_some hm with ⟨rfl, rfl⟩
      rw [Phrase.kinds, List.length_cons] at hlen
      rcases h.exists_advance nofun with ⟨u, hu, hu'⟩
      rcases complete_expression n (by omega) rfl hx hu' with ⟨t, ht, hafter⟩
      refine ⟨t, ?_, hafter⟩
      rw [Parser.simpleStatement, kind_bind, h.current]
      exact (bind_of_ok hu).trans ((bind_of_ok ht).trans rfl)
  | print args =>
      rw [Phrase.meaning] at hm
      rcases Reading.bind_eq_some hm with ⟨values, _, hargs, hm⟩
      rcases Reading.eq_of_pure_eq_some hm with ⟨rfl, rfl⟩
      rw [Phrase.kinds, List.length_cons] at hlen
      rcases h.exists_advance nofun with ⟨u, hu, hu'⟩
      cases args with
      | absent =>
          rcases Reading.eq_of_pure_eq_some hargs with ⟨rfl, rfl⟩
          refine ⟨u, ?_, hu'⟩
          rw [Parser.simpleStatement, kind_bind, h.current]
          show (Parser.advance >>= _) st = _
          rw [bind_of_ok hu, kind_bind, hu'.current, if_pos rfl]
          rfl
      | present list =>
          rw [Phrase.meaning] at hargs
          rcases Reading.bind_eq_some hargs with ⟨values, _, hlist, hargs⟩
          rcases Reading.eq_of_pure_eq_some hargs with ⟨rfl, rfl⟩
          rw [Phrase.kinds] at hlen hu'
          have hopen : u.current.kind = .punct .leftParen :=
            of_decide_eq_true (hu'.starts_current rfl)
          have hline : u.current.kind ≠ .newline := by
            rw [hopen]
            nofun
          have hvalues : Complete (.list .expression) (fun _ => true) (n + 1) id
              (Parser.parenthesized (Parser.expression n) n) :=
            complete_arguments (complete_expression n) (Nat.le_refl n)
          rcases hvalues (by omega) rfl hlist hu' with ⟨t, ht, hafter⟩
          refine ⟨t, ?_, hafter⟩
          rw [Parser.simpleStatement, kind_bind, h.current]
          show (Parser.advance >>= _) st = _
          rw [bind_of_ok hu, kind_bind, if_neg hline, bind_of_ok ht]
          rfl
  | assign target value =>
      rw [id, simpleStatement_eq (by rw [Phrase.kinds, List.append_assoc] at h; exact h)]
      exact exists_assign hlen rfl hm h
  | apply callee applied =>
      rw [id, simpleStatement_eq (by rw [Phrase.kinds, List.append_assoc] at h; exact h)]
      exact exists_apply hlen rfl hm h

/-! ## Blocks and classes -/

section Bodies

variable {statement : Parser Stream Node} {n : Nat}

theorem complete_block (hstatement : Complete .statement Symbol.statement.stops n id statement) :
    Complete .block Symbol.block.stops (n + 1) id (Parser.block statement (n + 1)) := by
  intro d k ks classes after m st hlen hk hm h
  cases d with
  | block body =>
      rw [Phrase.meaning] at hm
      rcases Reading.bind_eq_some hm with ⟨xs, _, hbody, hm⟩
      rcases Reading.eq_of_pure_eq_some hm with ⟨rfl, rfl⟩
      simp only [Phrase.kinds, List.length_append, List.length_cons, List.length_nil,
        List.append_assoc, List.cons_append, List.nil_append] at hlen h
      have hstatements : Complete (.many .statement) (· = .dedent) n id
          (Parser.whileKind (fun k => !Parser.endsBlock k) statement (n + 1)) := by
        refine complete_whileKind hstatement rfl (fun k hk => ⟨?_, ?_⟩) (fun k hk => ?_)
          (Nat.le_succ n)
        · cases k <;> first | rfl | cases hk
        · exact Symbol.predictive_many_statement.2.2 k hk
        · rw [of_decide_eq_true (p := k = .dedent) hk]
          exact ⟨rfl, rfl⟩
      rcases h.exists_expect nofun with ⟨u, hu, hu'⟩
      rcases hu'.exists_expect nofun with ⟨v, hv, hv'⟩
      rcases hstatements (by omega) rfl hbody hv' with ⟨w, hw, hw'⟩
      rcases hw'.exists_expect nofun with ⟨t, ht, hafter⟩
      refine ⟨t, ?_, hafter⟩
      rw [Parser.block, bind_of_ok hu, bind_of_ok hv, bind_of_ok hw, bind_of_ok ht]
      rfl

theorem exists_conditional
    (hstatement : Complete .statement Symbol.statement.stops n id statement)
    {condition : Phrase .expression} {thenBody : Phrase .block}
    {elseBody : Phrase (.option .alternative)} {k : Kind} {ks : List Kind}
    {classes after : List Class} {m : Node} {st : ParseState Stream}
    (hlen : (Phrase.conditional condition thenBody elseBody).kinds.length < n + 1)
    (hk : k ≠ .keyword .elseKw)
    (hm : (Phrase.conditional condition thenBody elseBody).meaning classes = some (m, after))
    (h : Before ((Phrase.conditional condition thenBody elseBody).kinds ++ k :: ks) classes st) :
    ∃ t, Parser.conditional statement (n + 1) st = .ok m t ∧ Before (k :: ks) after t := by
  rw [Phrase.meaning] at hm
  rcases Reading.bind_eq_some hm with ⟨c, _, hcondition, hm⟩
  rcases Reading.bind_eq_some hm with ⟨b, _, hthen, hm⟩
  rcases Reading.bind_eq_some hm with ⟨e, _, helse, hm⟩
  rcases Reading.eq_of_pure_eq_some hm with ⟨rfl, rfl⟩
  simp only [Phrase.kinds, List.length_append, List.length_cons, List.append_assoc,
    List.cons_append] at hlen h
  have hblock := complete_block hstatement
  rcases h.exists_expect nofun with ⟨u, hu, hu'⟩
  rcases complete_expression (n + 1) (by omega) rfl hcondition hu' with ⟨v, hv, hv'⟩
  rcases hv'.exists_expect nofun with ⟨w, hw, hw'⟩
  rcases hblock.before (t := .option .alternative) (Symbol.precedes_of_stops fun _ => rfl)
    (by omega) (Symbol.stops_alternative (decide_eq_true hk)) hthen hw' with ⟨y, hy, hy'⟩
  -- Without an `else` the next token must not be one: it would belong to this condition.
  cases elseBody with
  | absent =>
      rcases Reading.eq_of_pure_eq_some helse with ⟨rfl, rfl⟩
      refine ⟨y, ?_, hy'⟩
      rw [Parser.conditional, bind_of_ok hu, bind_of_ok hv, bind_of_ok hw, bind_of_ok hy, kind_bind,
        hy'.current, if_neg hk]
      rfl
  | present alternative =>
      rw [Phrase.meaning] at helse
      rcases Reading.bind_eq_some helse with ⟨b', _, halternative, helse⟩
      rcases Reading.eq_of_pure_eq_some helse with ⟨rfl, rfl⟩
      cases alternative with
      | alternative body =>
          simp only [Phrase.kinds, List.length_cons, List.cons_append] at hlen hy'
          rcases hy'.exists_advance nofun with ⟨u', hu', hu''⟩
          rcases hu''.exists_expect nofun with ⟨v', hv', hv''⟩
          rcases hblock (by omega) rfl halternative hv'' with ⟨t, ht, hafter⟩
          refine ⟨t, ?_, hafter⟩
          rw [Parser.conditional, bind_of_ok hu, bind_of_ok hv, bind_of_ok hw, bind_of_ok hy,
            kind_bind, hy'.current, if_pos rfl, bind_of_ok hu', bind_of_ok hv', bind_of_ok ht]
          rfl

theorem complete_method (hstatement : Complete .statement Symbol.statement.stops n id statement) :
    Complete .method Symbol.method.stops (n + 1) id (Parser.method statement (n + 1)) := by
  intro d k ks classes after m st hlen hk hm h
  cases d with
  | method name params body =>
      cases name with
      | name name =>
          rw [Phrase.meaning, Phrase.meaning, Reading.bind_of_some rfl] at hm
          rcases Reading.bind_eq_some hm with ⟨names, _, hparams, hm⟩
          rcases Reading.bind_eq_some hm with ⟨b, _, hbody, hm⟩
          rcases Reading.eq_of_pure_eq_some hm with ⟨rfl, rfl⟩
          simp only [Phrase.kinds, List.length_append, List.length_cons, List.append_assoc,
            List.cons_append, List.nil_append] at hlen h
          have hnames : Complete (.list .name) (fun _ => true) (n + 2) id
              (Parser.parenthesized Parser.identifier (n + 1)) :=
            complete_parenthesized (complete_identifier (fun _ => true) (n + 1)) rfl rfl
              rfl rfl (Nat.le_refl _)
          rcases h.exists_expect nofun with ⟨u, hu, hu'⟩
          rcases hu'.exists_identifier with ⟨v, hv, hv'⟩
          rcases hnames (by omega) rfl hparams hv' with ⟨w, hw, hw'⟩
          rcases hw'.exists_expect nofun with ⟨y, hy, hy'⟩
          rcases complete_block hstatement (by omega) rfl hbody hy' with ⟨t, ht, hafter⟩
          refine ⟨t, ?_, hafter⟩
          rw [Parser.method, bind_of_ok hu, bind_of_ok hv, bind_of_ok hw, bind_of_ok hy,
            bind_of_ok ht]
          rfl

theorem complete_base (line : Nat) :
    Complete (.option .base) (· ≠ .punct .leftParen) n id (Parser.base line) := by
  intro d k ks classes after m st hlen hk hm h
  cases d with
  | absent =>
      rcases Reading.eq_of_pure_eq_some hm with ⟨rfl, rfl⟩
      refine ⟨st, ?_, h⟩
      rw [Parser.base, kind_bind, h.current, if_neg (of_decide_eq_true hk)]
      rfl
  | present base =>
      rw [Phrase.meaning] at hm
      rcases Reading.bind_eq_some hm with ⟨c, _, hbase, hm⟩
      rcases Reading.eq_of_pure_eq_some hm with ⟨rfl, rfl⟩
      cases base with
      | base name =>
          cases name with
          | name name =>
              rw [Phrase.meaning, Phrase.meaning, Reading.bind_of_some rfl] at hbase
              rcases Option.map_eq_some_iff.mp hbase with ⟨c, hfind, hc⟩
              cases hc
              simp only [Phrase.kinds, List.cons_append, List.nil_append] at h
              rcases h.exists_advance nofun with ⟨u, hu, hu'⟩
              rcases hu'.exists_identifier with ⟨v, hv, hv'⟩
              rcases hv'.exists_expect nofun with ⟨t, ht, hafter⟩
              refine ⟨t, ?_, hafter⟩
              rw [Parser.base, kind_bind, h.current, if_pos rfl, bind_of_ok hu, bind_of_ok hv,
                bind_of_ok ht, class?_bind, hafter.class?_eq, hfind]
              rfl

theorem exists_classDefinition
    (hstatement : Complete .statement Symbol.statement.stops n id statement) {name : Phrase .name}
    {parent : Phrase (.option .base)} {methods : Phrase (.many .method)} {k : Kind}
    {ks : List Kind} {classes after : List Class} {m : Node} {st : ParseState Stream}
    (hlen : (Phrase.classDefinition name parent methods).kinds.length < n + 1)
    (hm : (Phrase.classDefinition name parent methods).meaning classes = some (m, after))
    (h : Before ((Phrase.classDefinition name parent methods).kinds ++ k :: ks) classes st) :
    ∃ t, Parser.classDefinition statement (n + 1) st = .ok m t ∧ Before (k :: ks) after t := by
  cases name with
  | name name =>
      rw [Phrase.meaning, Phrase.meaning, Reading.bind_of_some rfl] at hm
      rcases Reading.bind_eq_some hm with ⟨p, _, hparent, hm⟩
      rcases Reading.bind_eq_some hm with ⟨ms, between, hmethods, hm⟩
      rcases Reading.declare_eq_some_iff.mp hm with ⟨hfind, hnodup, rfl, rfl⟩
      simp only [Phrase.kinds, List.length_append, List.length_cons, List.length_nil,
        List.append_assoc, List.cons_append, List.nil_append] at hlen h
      have hbodies : Complete (.many .method) (· = .dedent) n id
          (Parser.whileKind (· = .keyword .defKw) (Parser.method statement (n + 1)) (n + 1)) := by
        refine complete_whileKind ((complete_method hstatement).mono (Nat.le_succ n)) rfl
          (fun k hk => ⟨hk, rfl⟩) (fun k hk => ?_) (Nat.le_succ n)
        rw [of_decide_eq_true (p := k = .dedent) hk]
        exact ⟨rfl, rfl⟩
      rcases h.exists_expect nofun with ⟨u₁, h₁, hu₁⟩
      rcases hu₁.exists_identifier with ⟨u₂, h₂, hu₂⟩
      rcases complete_base st.current.place.line (Nat.lt_succ_self _) rfl hparent hu₂
        with ⟨u₃, h₃, hu₃⟩
      rcases hu₃.exists_expect nofun with ⟨u₄, h₄, hu₄⟩
      rcases hu₄.exists_expect nofun with ⟨u₅, h₅, hu₅⟩
      rcases hu₅.exists_expect nofun with ⟨u₆, h₆, hu₆⟩
      rcases hbodies (by omega) rfl hmethods hu₆ with ⟨u₇, h₇, hu₇⟩
      rcases hu₇.exists_expect nofun with ⟨u₈, h₈, hu₈⟩
      -- Only here, after its methods, is the class there for later text.
      rcases hu₈.exists_declare ⟨name, p, ms⟩ with ⟨t, ht, hafter⟩
      refine ⟨t, ?_, hafter⟩
      rw [Parser.classDefinition, line_bind, bind_of_ok h₁, bind_of_ok h₂, bind_of_ok h₃,
        bind_of_ok h₄, bind_of_ok h₅, bind_of_ok h₆, bind_of_ok h₇, bind_of_ok h₈, class?_bind,
        hu₈.class?_eq, hfind]
      dsimp only [id]
      rw [build_eq_ok_iff.mpr ⟨hnodup, rfl⟩]
      exact bind_of_ok ht

end Bodies

theorem complete_statement (n : Nat) :
    Complete .statement Symbol.statement.stops n id (Parser.statement n) := by
  induction n with
  | zero => exact fun _ _ _ _ _ _ _ hlen => absurd hlen (Nat.not_lt_zero _)
  | succ n ih =>
      intro d k ks classes after m st hlen hk hm h
      cases d with
      | simple x =>
          simp only [Phrase.kinds, List.length_append, List.length_cons, List.length_nil,
            List.append_assoc, List.cons_append, List.nil_append] at hlen h
          rcases complete_simpleStatement (n + 1) (by omega) rfl hm h with ⟨u, hu, hu'⟩
          rcases hu'.exists_expect nofun with ⟨t, ht, hafter⟩
          refine ⟨t, ?_, hafter⟩
          rcases x.exists_head rfl with ⟨k₁, ks₁, hhead, hstart⟩
          rw [hhead] at h
          rw [Parser.statement, kind_bind, h.current]
          -- Compound statements start with a keyword of their own.
          split
          next => cases hstart
          next => cases hstart
          next => exact (bind_of_ok hu).trans ((bind_of_ok ht).trans rfl)
      | conditional condition thenBody elseBody =>
          rcases exists_conditional ih hlen (of_decide_eq_true hk) hm h with ⟨t, ht, hafter⟩
          refine ⟨t, ?_, hafter⟩
          rw [Parser.statement, kind_bind, h.current]
          exact ht
      | classDefinition name parent methods =>
          rcases exists_classDefinition ih hlen hm h with ⟨t, ht, hafter⟩
          refine ⟨t, ?_, hafter⟩
          rw [Parser.statement, kind_bind, h.current]
          exact ht

theorem complete_statements (n : Nat) :
    Complete (.many .statement) (· = .endOfInput) n id (Parser.statements n) := by
  refine complete_whileKind (complete_statement n) rfl (fun k hk => ⟨?_, ?_⟩) (fun k hk => ?_)
    (Nat.le_refl n)
  · cases k <;> first | rfl | cases hk
  · exact Symbol.predictive_many_statement.2.2 k hk
  · rw [of_decide_eq_true (p := k = .endOfInput) hk]
    exact ⟨rfl, rfl⟩

end Grammar
end Offside
