import Offside.Proofs.Grammar.Context

/-!
# Soundness — what the parser reads is a phrase

This file proves that every parser takes the tokens of a phrase of its symbol, gives the meaning of that
phrase, and leaves the classes as the phrase does.  There is one lemma for each parser, in the order of
the grammar; `sound_statements` is the one for whole programs.
-/

namespace Offside
namespace Grammar

/-- What the parser takes from the state `st` is a phrase of `s`, and its result is the meaning of that
phrase under `result`. -/
def Takes {α : Type} (s : Symbol) (result : s.Meaning → α) (p : Parser Stream α)
    (st : ParseState Stream) : Prop :=
  ∀ ⦃ks : List Kind⦄ ⦃classes : List Class⦄ ⦃x : α⦄ ⦃t : ParseState Stream⦄,
    Before ks classes st → p st = .ok x t →
      ∃ (d : Phrase s) (m : s.Meaning) (ks' : List Kind) (after : List Class),
        ks = d.kinds ++ ks' ∧ d.meaning classes = some (m, after) ∧ result m = x
          ∧ Before ks' after t

/-- What the parser takes is a phrase of `s`, from wherever it starts. -/
def Sound {α : Type} (s : Symbol) (result : s.Meaning → α) (p : Parser Stream α) : Prop :=
  ∀ st, Takes s result p st

theorem meaning_present {s : Symbol} {d : Phrase s} {m : s.Meaning} {classes after : List Class}
    (hd : d.meaning classes = some (m, after)) :
    (Phrase.present d).meaning classes = some (some m, after) := by
  rw [Phrase.meaning, Reading.bind_of_some hd]
  rfl

/-! ## Repetition -/

theorem sound_identifier : Sound .name id Parser.identifier := by
  intro st ks classes x t h hrun
  rcases h.identifier hrun with ⟨ks', rfl, ht⟩
  exact ⟨.name x, x, ks', classes, rfl, rfl, rfl, ht⟩

theorem sound_whileKind {s : Symbol} {starts : Kind → Bool} {p : Parser Stream s.Meaning}
    (hp : ∀ st, starts st.current.kind = true → Takes s id p st) (n : Nat) :
    Sound (.many s) id (Parser.whileKind starts p n) := by
  intro st ks classes x t h hrun
  -- The induction is on the allowance: a loop that ran out of it gave no result.
  induction n generalizing st ks classes x with
  | zero => cases hrun
  | succ n ih =>
      rw [Parser.whileKind, kind_bind] at hrun
      split at hrun
      next hstart =>
        rcases bind_eq_ok hrun with ⟨m, u, hm, hrun⟩
        rcases bind_eq_ok hrun with ⟨ms, v, hms, hrun⟩
        rcases eq_of_pure_eq_ok hrun with ⟨rfl, rfl⟩
        rcases hp st hstart h hm with ⟨d, m, ks₁, between, rfl, hd, rfl, hu⟩
        rcases ih u hu hms with ⟨ds, ms, ks₂, after, rfl, hds, rfl, ht⟩
        refine ⟨.more d ds, m :: ms, ks₂, after, by simp, ?_, rfl, ht⟩
        rw [Phrase.meaning, Reading.bind_of_some hd, Reading.bind_of_some hds]
        rfl
      next hstop =>
        rcases eq_of_pure_eq_ok hrun with ⟨rfl, rfl⟩
        exact ⟨.done, [], ks, classes, rfl, rfl, rfl, h⟩

theorem takes_after {s : Symbol} {p : Parser Stream s.Meaning} (hp : Sound s id p) (mark : Punct)
    (st : ParseState Stream) (hstart : decide (st.current.kind = .punct mark) = true) :
    Takes (.after mark s) id (do Parser.advance; p) st := by
  intro ks classes x t h hrun
  have hmark : st.current.kind = .punct mark := of_decide_eq_true hstart
  rcases bind_eq_ok hrun with ⟨_, u, hu, hrun⟩
  rcases h.advance hu (hmark ▸ nofun) with ⟨ks₁, rfl, hu⟩
  rcases hp u hu hrun with ⟨d, m, ks₂, after, rfl, hd, rfl, ht⟩
  exact ⟨.after mark d, m, ks₂, after, by rw [hmark]; rfl, hd, rfl, ht⟩

theorem sound_parenthesized {s : Symbol} {item : Parser Stream s.Meaning} (hitem : Sound s id item)
    (n : Nat) : Sound (.list s) id (Parser.parenthesized item n) := by
  intro st ks classes x t h hrun
  rcases bind_eq_ok hrun with ⟨_, u, hu, hrun⟩
  rcases h.expect hu nofun with ⟨ks₁, rfl, hu⟩
  rw [kind_bind] at hrun
  split at hrun
  next hclose =>
    rcases bind_eq_ok hrun with ⟨_, v, hv, hrun⟩
    rcases eq_of_pure_eq_ok hrun with ⟨rfl, rfl⟩
    rcases hu.advance hv (hclose ▸ nofun) with ⟨ks₂, rfl, hv⟩
    exact ⟨.noItems, [], ks₂, classes, by rw [hclose]; rfl, rfl, rfl, hv⟩
  next hopen =>
    rcases bind_eq_ok hrun with ⟨m, v, hm, hrun⟩
    rcases bind_eq_ok hrun with ⟨ms, w, hms, hrun⟩
    rcases bind_eq_ok hrun with ⟨_, y, hy, hrun⟩
    rcases eq_of_pure_eq_ok hrun with ⟨rfl, rfl⟩
    rcases hitem u hu hm with ⟨d, m, ks₂, between, rfl, hd, rfl, hv⟩
    rcases sound_whileKind (s := .after .comma s) (takes_after hitem .comma) n v hv hms
      with ⟨ds, ms, ks₃, after, rfl, hds, rfl, hw⟩
    rcases hw.expect hy nofun with ⟨ks₄, rfl, hy⟩
    refine ⟨.items d ds, m :: ms, ks₄, after, by simp, ?_, rfl, hy⟩
    rw [Phrase.meaning, Reading.bind_of_some hd, Reading.bind_of_some hds]
    rfl

theorem sound_leftChain (l : Level) {operand : Parser Stream Node}
    (hoperand : Sound (.expr l.operand) id operand) (n : Nat) (left : Node) :
    Sound (.many (.link l)) (applyAll left) (Parser.leftChain operand l.op? n left) := by
  intro st ks classes x t h hrun
  induction n generalizing left st ks classes with
  | zero => cases hrun
  | succ n ih =>
      rw [Parser.leftChain, kind_bind] at hrun
      cases hop : l.op? st.current.kind with
      | none =>
          rw [hop] at hrun
          rcases eq_of_pure_eq_ok hrun with ⟨rfl, rfl⟩
          exact ⟨.done, [], ks, classes, rfl, rfl, rfl, h⟩
      | some op =>
          rw [hop] at hrun
          rcases l.exists_joint hop with ⟨j, hj, rfl⟩
          rcases bind_eq_ok hrun with ⟨_, u, hu, hrun⟩
          rcases bind_eq_ok hrun with ⟨right, v, hright, hrun⟩
          rcases h.advance hu (by rw [hj]; exact j.kind_ne_endOfInput) with ⟨ks₁, rfl, hu⟩
          rcases hoperand u hu hright with ⟨d, m, ks₂, between, rfl, hd, rfl, hv⟩
          rcases ih _ v hv hrun with ⟨ds, links, ks₃, after, rfl, hds, rfl, ht⟩
          -- A link is what is done to the left side; `applyAll` starts with the first one.
          refine ⟨.more (.link j d) ds, (j.node · m) :: links, ks₃, after, by simp [hj], ?_, rfl,
            ht⟩
          have hlink : (Phrase.link j d).meaning classes = some ((j.node · m), between) := by
            rw [Phrase.meaning, Reading.bind_of_some hd]
            rfl
          rw [Phrase.meaning, Reading.bind_of_some hlink, Reading.bind_of_some hds]
          rfl

/-- An operand and the chain after it. -/
theorem sound_chain (l : Level) {operand : Parser Stream Node}
    (hoperand : Sound (.expr l.operand) id operand) (n : Nat) :
    Sound (.expr (.chain l)) id (operand >>= Parser.leftChain operand l.op? n) := by
  intro st ks classes x t h hrun
  rcases bind_eq_ok hrun with ⟨first, u, hfirst, hrun⟩
  rcases hoperand st h hfirst with ⟨d, m, ks₁, between, rfl, hd, rfl, hu⟩
  rcases sound_leftChain l hoperand n m u hu hrun with ⟨ds, links, ks₂, after, rfl, hds, rfl, ht⟩
  refine ⟨.chain d ds, applyAll m links, ks₂, after, by simp, ?_, rfl, ht⟩
  rw [Phrase.meaning, Reading.bind_of_some hd, Reading.bind_of_some hds]
  rfl

/-! ## Paths and calls -/

theorem sound_path (n : Nat) : Sound .path id (Parser.path n) := by
  intro st ks classes x t h hrun
  rcases bind_eq_ok hrun with ⟨first, u, hfirst, hrun⟩
  rcases bind_eq_ok hrun with ⟨rest, v, hrest, hrun⟩
  rcases eq_of_pure_eq_ok hrun with ⟨rfl, rfl⟩
  rcases sound_identifier st h hfirst with ⟨d, m, ks₁, between, rfl, hd, rfl, hu⟩
  rcases sound_whileKind (s := .after .dot .name) (takes_after sound_identifier .dot) n u hu hrest
    with ⟨ds, ms, ks₂, after, rfl, hds, rfl, hv⟩
  refine ⟨.path d ds, (m, ms), ks₂, after, by simp, ?_, rfl, hv⟩
  rw [Phrase.meaning, Reading.bind_of_some hd, Reading.bind_of_some hds]
  rfl

section Levels

variable {inner : Parser Stream Node}

theorem sound_methodCalls (hinner : Sound .expression id inner) (n : Nat) (receiver : Node) :
    Sound (.many .call) (applyAll receiver) (Parser.methodCalls inner n receiver) := by
  intro st ks classes x t h hrun
  induction n generalizing receiver st ks classes with
  | zero => cases hrun
  | succ n ih =>
      rw [Parser.methodCalls, kind_bind] at hrun
      split at hrun
      next hdot =>
        rcases bind_eq_ok hrun with ⟨_, u, hu, hrun⟩
        rcases bind_eq_ok hrun with ⟨name, v, hname, hrun⟩
        rcases bind_eq_ok hrun with ⟨args, w, hargs, hrun⟩
        rcases h.advance hu (hdot ▸ nofun) with ⟨ks₁, rfl, hu⟩
        rcases hu.identifier hname with ⟨ks₂, rfl, hv⟩
        rcases sound_parenthesized hinner n v hv hargs
          with ⟨d, args, ks₃, between, rfl, hd, rfl, hw⟩
        rcases ih _ w hw hrun with ⟨ds, calls, ks₄, after, rfl, hds, rfl, ht⟩
        refine ⟨.more (.call (.name name) d) ds, (.call · name args) :: calls, ks₄, after,
          by simp [hdot], ?_, rfl, ht⟩
        have hcall : (Phrase.call (.name name) d).meaning classes
            = some ((.call · name args), between) := by
          rw [Phrase.meaning, Phrase.meaning, Reading.bind_of_some rfl, Reading.bind_of_some hd]
          rfl
        rw [Phrase.meaning, Reading.bind_of_some hcall, Reading.bind_of_some hds]
        rfl
      next hstop =>
        rcases eq_of_pure_eq_ok hrun with ⟨rfl, rfl⟩
        exact ⟨.done, [], ks, classes, rfl, rfl, rfl, h⟩

/-- The arguments of a call are read before what the call means is known. -/
theorem exists_application (hinner : Sound .expression id inner) {n : Nat}
    {called : String × List String} {line : Nat} {st t : ParseState Stream} {ks : List Kind}
    {classes : List Class} {x : Node} (h : Before ks classes st)
    (hrun : Parser.callTail inner n called line st = .ok x t) :
    ∃ (d : Phrase .application) (args : List Node) (calls : List (Node → Node)) (call : Node)
      (ks' : List Kind) (after : List Class),
      ks = d.kinds ++ ks' ∧ d.meaning classes = some ((args, calls), after)
        ∧ Reading.callee (object called) (lastName called) args after = some (call, after)
        ∧ applyAll call calls = x ∧ Before ks' after t := by
  rw [Parser.callTail, splitLast_eq] at hrun
  rcases bind_eq_ok hrun with ⟨args, u, hargs, hrun⟩
  rcases bind_eq_ok hrun with ⟨call, v, hcall, hrun⟩
  rcases sound_parenthesized hinner n st h hargs with ⟨d, args, ks₁, between, rfl, hd, rfl, hu⟩
  rcases (hu.buildCall_eq_ok_iff line).mp hcall with ⟨hcallee, rfl⟩
  rcases sound_methodCalls hinner n call u hu hrun with ⟨ds, calls, ks₂, after, rfl, hds, rfl, ht⟩
  -- The callee was looked up before the later calls were read, which makes no difference.
  have hkeeps : after = between := ds.keeps rfl hds
  subst hkeeps
  refine ⟨.application d ds, args, calls, call, ks₂, after, by simp, ?_, hcallee, rfl, ht⟩
  rw [Phrase.meaning, Reading.bind_of_some hd, Reading.bind_of_some hds]
  rfl

/-! ## Levels of expressions -/

theorem sound_group (hinner : Sound .expression id inner) (n : Nat) :
    ∀ st, Takes (.expr .primary) id (Parser.group inner n) st := by
  intro st ks classes x t h hrun
  rcases bind_eq_ok hrun with ⟨_, u, hu, hrun⟩
  rcases bind_eq_ok hrun with ⟨node, v, hnode, hrun⟩
  rcases bind_eq_ok hrun with ⟨_, w, hw, hrun⟩
  rcases h.expect hu nofun with ⟨ks₁, rfl, hu⟩
  rcases hinner u hu hnode with ⟨d, m, ks₂, between, rfl, hd, rfl, hv⟩
  rcases hv.expect hw nofun with ⟨ks₃, rfl, hw⟩
  rcases sound_methodCalls hinner n m w hw hrun with ⟨ds, calls, ks₄, after, rfl, hds, rfl, ht⟩
  refine ⟨.group d ds, applyAll m calls, ks₄, after, by simp, ?_, rfl, ht⟩
  rw [Phrase.meaning, Reading.bind_of_some hd, Reading.bind_of_some hds]
  rfl

theorem sound_reference (hinner : Sound .expression id inner) (n : Nat) :
    Sound (.expr .primary) id (Parser.reference inner n) := by
  intro st ks classes x t h hrun
  rw [Parser.reference, line_bind] at hrun
  rcases bind_eq_ok hrun with ⟨called, u, hcalled, hrun⟩
  rcases sound_path n st h hcalled with ⟨d, called, ks₁, between, rfl, hd, rfl, hu⟩
  rw [kind_bind] at hrun
  split at hrun
  next hopen =>
    rcases exists_application hinner hu hrun
      with ⟨da, args, calls, call, ks₂, after, rfl, hda, hcallee, rfl, ht⟩
    refine ⟨.reference d (.present da), applyAll call calls, ks₂, after, by simp, ?_, rfl, ht⟩
    rw [Phrase.meaning, Reading.bind_of_some hd, Reading.bind_of_some (meaning_present hda)]
    exact Reading.bind_of_some hcallee
  next hstop =>
    rcases eq_of_pure_eq_ok hrun with ⟨rfl, rfl⟩
    refine ⟨.reference d .absent, .variable (called.1 :: called.2), ks₁, between, by simp, ?_, rfl,
      hu⟩
    rw [Phrase.meaning, Phrase.meaning, Reading.bind_of_some hd]
    rfl

theorem sound_primary (hinner : Sound .expression id inner) (n : Nat) :
    Sound (.expr .primary) id (Parser.primary inner n) := by
  intro st ks classes x t h hrun
  rw [Parser.primary, kind_bind] at hrun
  cases hlit : Parser.literal? st.current.kind with
  | some node =>
      rw [hlit] at hrun
      rcases exists_literal hlit with ⟨v, hv, rfl⟩
      rcases bind_eq_ok hrun with ⟨_, u, hu, hrun⟩
      rcases eq_of_pure_eq_ok hrun with ⟨rfl, rfl⟩
      rcases h.advance hu (hv ▸ v.kind_ne_endOfInput) with ⟨ks₁, rfl, hu⟩
      exact ⟨.literal v, v.node, ks₁, classes, by simp [hv], rfl, rfl, hu⟩
  | none =>
      rw [hlit] at hrun
      dsimp only at hrun
      rw [kind_bind] at hrun
      -- Both parsers look at the first token again, so its kind need not be remembered.
      generalize st.current.kind = k at hrun
      split at hrun
      next => exact sound_group hinner n st h hrun
      next => exact sound_reference hinner n st h hrun
      next => cases hrun

theorem sound_factor (hinner : Sound .expression id inner) (n : Nat) :
    Sound (.expr .factor) id (Parser.factor inner n) := by
  intro st ks classes x t h hrun
  induction n generalizing st ks classes x with
  | zero => cases hrun
  | succ n ih =>
      rw [Parser.factor, kind_bind] at hrun
      cases hsign : Parser.sign? st.current.kind with
      | some sign =>
          rw [hsign] at hrun
          have hmark := sign?_eq_some_iff.mp hsign
          rcases bind_eq_ok hrun with ⟨_, u, hu, hrun⟩
          rcases bind_eq_ok hrun with ⟨operand, v, hoperand, hrun⟩
          rcases eq_of_pure_eq_ok hrun with ⟨rfl, rfl⟩
          rcases h.advance hu (hmark ▸ nofun) with ⟨ks₁, rfl, hu⟩
          rcases ih u hu hoperand with ⟨d, m, ks₂, after, rfl, hd, rfl, ht⟩
          refine ⟨.signed sign d, .signed sign m, ks₂, after, by simp [hmark], ?_, rfl, ht⟩
          rw [Phrase.meaning, Reading.bind_of_some hd]
          rfl
      | none =>
          rw [hsign] at hrun
          rcases sound_primary hinner (n + 1) st h hrun with ⟨d, m, ks', after, rfl, hd, rfl, ht⟩
          exact ⟨.unsigned d, m, ks', after, rfl, hd, rfl, ht⟩

theorem sound_product (hinner : Sound .expression id inner) (n : Nat) :
    Sound (.expr (.chain .product)) id (Parser.product inner n) :=
  sound_chain .product (sound_factor hinner n) n

theorem sound_sum (hinner : Sound .expression id inner) (n : Nat) :
    Sound (.expr (.chain .sum)) id (Parser.sum inner n) :=
  sound_chain .sum (sound_product hinner n) n

theorem sound_comparison (hinner : Sound .expression id inner) (n : Nat) :
    Sound (.expr .comparison) id (Parser.comparison inner n) := by
  intro st ks classes x t h hrun
  rcases bind_eq_ok hrun with ⟨left, u, hleft, hrun⟩
  rcases sound_sum hinner n st h hleft with ⟨d, m, ks₁, between, rfl, hd, rfl, hu⟩
  rw [kind_bind] at hrun
  cases hop : Parser.relation? u.current.kind with
  | some op =>
      rw [hop] at hrun
      have hmark := relation?_eq_some_iff.mp hop
      rcases bind_eq_ok hrun with ⟨_, v, hv, hrun⟩
      rcases bind_eq_ok hrun with ⟨right, w, hright, hrun⟩
      rcases eq_of_pure_eq_ok hrun with ⟨rfl, rfl⟩
      rcases hu.advance hv (hmark ▸ nofun) with ⟨ks₂, rfl, hv⟩
      rcases sound_sum hinner n v hv hright with ⟨d', m', ks₃, after, rfl, hd', rfl, hw⟩
      refine ⟨.comparison d (.present (.relation op d')), .comparison op m m', ks₃, after,
        by simp [hmark], ?_, rfl, hw⟩
      have hrelation : (Phrase.relation op d').meaning between
          = some ((.comparison op · m'), after) := by
        rw [Phrase.meaning, Reading.bind_of_some hd']
        rfl
      rw [Phrase.meaning, Reading.bind_of_some hd, Reading.bind_of_some (meaning_present hrelation)]
      rfl
  | none =>
      rw [hop] at hrun
      rcases eq_of_pure_eq_ok hrun with ⟨rfl, rfl⟩
      refine ⟨.comparison d .absent, m, ks₁, between, by simp, ?_, rfl, hu⟩
      rw [Phrase.meaning, Reading.bind_of_some hd]
      rfl

theorem sound_inversion (hinner : Sound .expression id inner) (n : Nat) :
    Sound (.expr .inversion) id (Parser.inversion inner n) := by
  intro st ks classes x t h hrun
  induction n generalizing st ks classes x with
  | zero => cases hrun
  | succ n ih =>
      rw [Parser.inversion, kind_bind] at hrun
      split at hrun
      next hnot =>
        rcases bind_eq_ok hrun with ⟨_, u, hu, hrun⟩
        rcases bind_eq_ok hrun with ⟨operand, v, hoperand, hrun⟩
        rcases eq_of_pure_eq_ok hrun with ⟨rfl, rfl⟩
        rcases h.advance hu (hnot ▸ nofun) with ⟨ks₁, rfl, hu⟩
        rcases ih u hu hoperand with ⟨d, m, ks₂, after, rfl, hd, rfl, ht⟩
        refine ⟨.not d, .not m, ks₂, after, by simp [hnot], ?_, rfl, ht⟩
        rw [Phrase.meaning, Reading.bind_of_some hd]
        rfl
      next hcompared =>
        rcases sound_comparison hinner (n + 1) st h hrun with ⟨d, m, ks', after, rfl, hd, rfl, ht⟩
        exact ⟨.compared d, m, ks', after, rfl, hd, rfl, ht⟩

theorem sound_conjunction (hinner : Sound .expression id inner) (n : Nat) :
    Sound (.expr (.chain .and)) id (Parser.conjunction inner n) :=
  sound_chain .and (sound_inversion hinner n) n

theorem sound_disjunction (hinner : Sound .expression id inner) (n : Nat) :
    Sound .expression id (Parser.disjunction inner n) :=
  sound_chain .or (sound_conjunction hinner n) n

end Levels

theorem sound_expression (n : Nat) : Sound .expression id (Parser.expression n) := by
  induction n with
  | zero => exact fun st ks classes x t h hrun => nomatch hrun
  | succ n ih => exact sound_disjunction ih (n + 1)

/-! ## Simple statements -/

theorem sound_assignmentOrCall (n : Nat) : Sound .simple id (Parser.assignmentOrCall n) := by
  intro st ks classes x t h hrun
  rw [Parser.assignmentOrCall, line_bind] at hrun
  rcases bind_eq_ok hrun with ⟨target, u, htarget, hrun⟩
  rcases sound_path n st h htarget with ⟨d, p, ks₁, between, rfl, hd, rfl, hu⟩
  rw [kind_bind] at hrun
  split at hrun
  next hassign =>
    rcases bind_eq_ok hrun with ⟨_, v, hv, hrun⟩
    rcases bind_eq_ok hrun with ⟨value, w, hvalue, hrun⟩
    rcases eq_of_pure_eq_ok hrun with ⟨rfl, rfl⟩
    rcases hu.advance hv (hassign ▸ nofun) with ⟨ks₂, rfl, hv⟩
    rcases sound_expression n v hv hvalue with ⟨d', m, ks₃, after, rfl, hd', rfl, hw⟩
    refine ⟨.assign d d', assignment p m, ks₃, after, by simp [hassign], ?_,
      (assignment_eq p m).symm, hw⟩
    rw [Phrase.meaning, Reading.bind_of_some hd, Reading.bind_of_some hd']
    rfl
  next hcall =>
    rcases exists_application (sound_expression n) hu hrun
      with ⟨d', args, calls, call, ks₂, after, rfl, hd', hcallee, rfl, ht⟩
    refine ⟨.apply d d', applyAll call calls, ks₂, after, by simp, ?_, rfl, ht⟩
    rw [Phrase.meaning, Reading.bind_of_some hd, Reading.bind_of_some hd']
    exact Reading.bind_of_some hcallee

theorem sound_simpleStatement (n : Nat) : Sound .simple id (Parser.simpleStatement n) := by
  intro st ks classes x t h hrun
  rw [Parser.simpleStatement, kind_bind] at hrun
  generalize hk : st.current.kind = k at hrun
  split at hrun
  next =>
    rcases bind_eq_ok hrun with ⟨_, u, hu, hrun⟩
    rcases bind_eq_ok hrun with ⟨value, v, hvalue, hrun⟩
    rcases eq_of_pure_eq_ok hrun with ⟨rfl, rfl⟩
    rcases h.advance hu (hk ▸ nofun) with ⟨ks₁, rfl, hu⟩
    rcases sound_expression n u hu hvalue with ⟨d, m, ks₂, after, rfl, hd, rfl, ht⟩
    refine ⟨.ret d, .ret m, ks₂, after, by simp [hk], ?_, rfl, ht⟩
    rw [Phrase.meaning, Reading.bind_of_some hd]
    rfl
  next =>
    rcases bind_eq_ok hrun with ⟨_, u, hu, hrun⟩
    rcases h.advance hu (hk ▸ nofun) with ⟨ks₁, rfl, hu⟩
    rw [kind_bind] at hrun
    split at hrun
    next hline =>
      rcases eq_of_pure_eq_ok hrun with ⟨rfl, rfl⟩
      exact ⟨.print .absent, .print [], ks₁, classes, by simp [hk], rfl, rfl, hu⟩
    next hargs =>
      rcases bind_eq_ok hrun with ⟨args, v, hargs, hrun⟩
      rcases eq_of_pure_eq_ok hrun with ⟨rfl, rfl⟩
      rcases sound_parenthesized (sound_expression n) n u hu hargs
        with ⟨d, m, ks₂, after, rfl, hd, rfl, ht⟩
      refine ⟨.print (.present d), .print m, ks₂, after, by simp [hk], ?_, rfl, ht⟩
      rw [Phrase.meaning, Reading.bind_of_some (meaning_present hd)]
      rfl
  next => exact sound_assignmentOrCall n st h hrun

/-! ## Blocks and classes -/

section Bodies

variable {statement : Parser Stream Node}

theorem sound_block (hstatement : Sound .statement id statement) (n : Nat) :
    Sound .block id (Parser.block statement n) := by
  intro st ks classes x t h hrun
  rcases bind_eq_ok hrun with ⟨_, u, hu, hrun⟩
  rcases bind_eq_ok hrun with ⟨_, v, hv, hrun⟩
  rcases bind_eq_ok hrun with ⟨body, w, hbody, hrun⟩
  rcases bind_eq_ok hrun with ⟨_, y, hy, hrun⟩
  rcases eq_of_pure_eq_ok hrun with ⟨rfl, rfl⟩
  rcases h.expect hu nofun with ⟨ks₁, rfl, hu⟩
  rcases hu.expect hv nofun with ⟨ks₂, rfl, hv⟩
  rcases sound_whileKind (fun st _ => hstatement st) n v hv hbody
    with ⟨d, m, ks₃, after, rfl, hd, rfl, hw⟩
  rcases hw.expect hy nofun with ⟨ks₄, rfl, hy⟩
  refine ⟨.block d, .block m, ks₄, after, by simp, ?_, rfl, hy⟩
  rw [Phrase.meaning, Reading.bind_of_some hd]
  rfl

theorem sound_conditional (hstatement : Sound .statement id statement) (n : Nat) :
    Sound .statement id (Parser.conditional statement n) := by
  intro st ks classes x t h hrun
  rcases bind_eq_ok hrun with ⟨_, u, hu, hrun⟩
  rcases bind_eq_ok hrun with ⟨condition, v, hcondition, hrun⟩
  rcases bind_eq_ok hrun with ⟨_, w, hw, hrun⟩
  rcases bind_eq_ok hrun with ⟨thenBody, y, hthen, hrun⟩
  rcases h.expect hu nofun with ⟨ks₁, rfl, hu⟩
  rcases sound_expression n u hu hcondition with ⟨dc, c, ks₂, Γ₁, rfl, hdc, rfl, hv⟩
  rcases hv.expect hw nofun with ⟨ks₃, rfl, hw⟩
  rcases sound_block hstatement n w hw hthen with ⟨dt, m, ks₄, Γ₂, rfl, hdt, rfl, hy⟩
  rw [kind_bind] at hrun
  split at hrun
  next helse =>
    rcases bind_eq_ok hrun with ⟨_, u', hu', hrun⟩
    rcases bind_eq_ok hrun with ⟨_, v', hv', hrun⟩
    rcases bind_eq_ok hrun with ⟨elseBody, w', helseBody, hrun⟩
    rcases eq_of_pure_eq_ok hrun with ⟨rfl, rfl⟩
    rcases hy.advance hu' (helse ▸ nofun) with ⟨ks₅, rfl, hu'⟩
    rcases hu'.expect hv' nofun with ⟨ks₆, rfl, hv'⟩
    rcases sound_block hstatement n v' hv' helseBody with ⟨de, m', ks₇, Γ₃, rfl, hde, rfl, hw'⟩
    refine ⟨.conditional dc dt (.present (.alternative de)), .ifElse c m (some m'), ks₇, Γ₃,
      by simp [helse], ?_, rfl, hw'⟩
    rw [Phrase.meaning, Reading.bind_of_some hdc, Reading.bind_of_some hdt,
      Reading.bind_of_some (meaning_present (d := .alternative de) hde)]
    rfl
  next hnone =>
    rcases eq_of_pure_eq_ok hrun with ⟨rfl, rfl⟩
    refine ⟨.conditional dc dt .absent, .ifElse c m none, ks₄, Γ₂, by simp, ?_, rfl, hy⟩
    rw [Phrase.meaning, Reading.bind_of_some hdc, Reading.bind_of_some hdt]
    rfl

theorem sound_method (hstatement : Sound .statement id statement) (n : Nat) :
    Sound .method id (Parser.method statement n) := by
  intro st ks classes x t h hrun
  rcases bind_eq_ok hrun with ⟨_, u, hu, hrun⟩
  rcases bind_eq_ok hrun with ⟨name, v, hname, hrun⟩
  rcases bind_eq_ok hrun with ⟨params, w, hparams, hrun⟩
  rcases bind_eq_ok hrun with ⟨_, y, hy, hrun⟩
  rcases bind_eq_ok hrun with ⟨body, z, hbody, hrun⟩
  rcases eq_of_pure_eq_ok hrun with ⟨rfl, rfl⟩
  rcases h.expect hu nofun with ⟨ks₁, rfl, hu⟩
  rcases hu.identifier hname with ⟨ks₂, rfl, hv⟩
  rcases sound_parenthesized sound_identifier n v hv hparams
    with ⟨dp, params, ks₃, Γ₁, rfl, hdp, rfl, hw⟩
  rcases hw.expect hy nofun with ⟨ks₄, rfl, hy⟩
  rcases sound_block hstatement n y hy hbody with ⟨db, body, ks₅, Γ₂, rfl, hdb, rfl, hz⟩
  refine ⟨.method (.name name) dp db, ⟨name, params, body⟩, ks₅, Γ₂, by simp, ?_, rfl, hz⟩
  rw [Phrase.meaning, Phrase.meaning, Reading.bind_of_some rfl, Reading.bind_of_some hdp,
    Reading.bind_of_some hdb]
  rfl

theorem sound_base (line : Nat) : Sound (.option .base) id (Parser.base line) := by
  intro st ks classes x t h hrun
  rw [Parser.base, kind_bind] at hrun
  split at hrun
  next hopen =>
    rcases bind_eq_ok hrun with ⟨_, u, hu, hrun⟩
    rcases bind_eq_ok hrun with ⟨name, v, hname, hrun⟩
    rcases bind_eq_ok hrun with ⟨_, w, hw, hrun⟩
    rcases h.advance hu (hopen ▸ nofun) with ⟨ks₁, rfl, hu⟩
    rcases hu.identifier hname with ⟨ks₂, rfl, hv⟩
    rcases hv.expect hw nofun with ⟨ks₃, rfl, hw⟩
    rw [class?_bind, hw.class?_eq] at hrun
    cases hfind : classes.find? (·.name = name) with
    | none =>
        rw [hfind] at hrun
        cases hrun
    | some c =>
        rw [hfind] at hrun
        rcases eq_of_pure_eq_ok hrun with ⟨rfl, rfl⟩
        have hbase : (Phrase.base (.name name)).meaning classes = some (c, classes) := by
          rw [Phrase.meaning, Phrase.meaning, Reading.bind_of_some rfl, Reading.declared, hfind]
          rfl
        exact ⟨.present (.base (.name name)), some c, ks₃, classes, by simp [hopen],
          meaning_present hbase, rfl, hw⟩
  next hnone =>
    rcases eq_of_pure_eq_ok hrun with ⟨rfl, rfl⟩
    exact ⟨.absent, none, ks, classes, rfl, rfl, rfl, h⟩

theorem sound_classDefinition (hstatement : Sound .statement id statement) (n : Nat) :
    Sound .statement id (Parser.classDefinition statement n) := by
  intro st ks classes x t h hrun
  rw [Parser.classDefinition, line_bind] at hrun
  rcases bind_eq_ok hrun with ⟨_, u, hu, hrun⟩
  rcases bind_eq_ok hrun with ⟨name, v, hname, hrun⟩
  rcases bind_eq_ok hrun with ⟨parent, w, hparent, hrun⟩
  rcases bind_eq_ok hrun with ⟨_, y, hy, hrun⟩
  rcases bind_eq_ok hrun with ⟨_, z, hz, hrun⟩
  rcases bind_eq_ok hrun with ⟨_, u', hu', hrun⟩
  rcases bind_eq_ok hrun with ⟨methods, v', hmethods, hrun⟩
  rcases bind_eq_ok hrun with ⟨_, w', hw', hrun⟩
  rcases h.expect hu nofun with ⟨ks₁, rfl, hu⟩
  rcases hu.identifier hname with ⟨ks₂, rfl, hv⟩
  rcases sound_base _ v hv hparent with ⟨dp, parent, ks₃, Γ₁, rfl, hdp, rfl, hw⟩
  rcases hw.expect hy nofun with ⟨ks₄, rfl, hy⟩
  rcases hy.expect hz nofun with ⟨ks₅, rfl, hz⟩
  rcases hz.expect hu' nofun with ⟨ks₆, rfl, hu'⟩
  rcases sound_whileKind (fun st _ => sound_method hstatement n st) n u' hu' hmethods
    with ⟨dm, methods, ks₇, Γ₂, rfl, hdm, rfl, hv'⟩
  rcases hv'.expect hw' nofun with ⟨ks₈, rfl, hw'⟩
  rw [class?_bind, hw'.class?_eq] at hrun
  -- The name is looked up after the methods, among the classes that are complete by then.
  cases hfind : Γ₂.find? (·.name = name) with
  | some c =>
      rw [hfind] at hrun
      cases hrun
  | none =>
      rw [hfind] at hrun
      dsimp only [id] at hrun
      cases hbuild : Class.build name parent methods with
      | error cause =>
          rw [hbuild] at hrun
          cases hrun
      | ok c =>
          rw [hbuild] at hrun
          rcases build_eq_ok_iff.mp hbuild with ⟨hnodup, rfl⟩
          rcases bind_eq_ok hrun with ⟨_, z', hz', hrun⟩
          rcases eq_of_pure_eq_ok hrun with ⟨rfl, rfl⟩
          refine ⟨.classDefinition (.name name) dp dm, _, ks₈, _, by simp, ?_, rfl,
            hw'.declare hz'⟩
          rw [Phrase.meaning, Phrase.meaning, Reading.bind_of_some rfl, Reading.bind_of_some hdp,
            Reading.bind_of_some hdm]
          exact Reading.declare_eq_some_iff.mpr ⟨hfind, hnodup, rfl, rfl⟩

end Bodies

theorem sound_statement (n : Nat) : Sound .statement id (Parser.statement n) := by
  induction n with
  | zero => exact fun st ks classes x t h hrun => nomatch hrun
  | succ n ih =>
      intro st ks classes x t h hrun
      rw [Parser.statement, kind_bind] at hrun
      generalize st.current.kind = k at hrun
      split at hrun
      next => exact sound_classDefinition ih (n + 1) st h hrun
      next => exact sound_conditional ih (n + 1) st h hrun
      next =>
        rcases bind_eq_ok hrun with ⟨node, u, hnode, hrun⟩
        rcases bind_eq_ok hrun with ⟨_, v, hv, hrun⟩
        rcases eq_of_pure_eq_ok hrun with ⟨rfl, rfl⟩
        rcases sound_simpleStatement (n + 1) st h hnode with ⟨d, m, ks₁, after, rfl, hd, rfl, hu⟩
        rcases hu.expect hv nofun with ⟨ks₂, rfl, hv⟩
        exact ⟨.simple d, m, ks₂, after, by simp, hd, rfl, hv⟩

theorem sound_statements (n : Nat) : Sound (.many .statement) id (Parser.statements n) :=
  sound_whileKind (fun st _ => sound_statement n st) n

end Grammar
end Offside
