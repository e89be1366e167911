import Mathlib.Data.List.Nodup
import Offside.Parse.Statement
import Offside.Proofs.Grammar.Steps

/-!
# Context — operators, calls and classes as the grammar sees them

This file relates what the parser decides from single tokens and from the classes that are complete to
the terminals and the context conditions of the grammar.  It ends with the fact that only statements
add to the classes (`Phrase.keeps`).
-/

namespace Offside
namespace Grammar

/-! ## Operators -/

/-- The operators that the parser knows on a level. -/
def Level.op? : Level → Kind → Option (Node → Node → Node)
  | .or => Parser.orOp?
  | .and => Parser.andOp?
  | .sum => Parser.sumOp?
  | .product => Parser.productOp?

theorem Level.op?_kind {l : Level} (j : Joint l) : l.op? j.kind = some j.node := by
  cases j <;> rfl

theorem Level.exists_joint {l : Level} {k : Kind} {f : Node → Node → Node}
    (h : l.op? k = some f) : ∃ j : Joint l, k = j.kind ∧ f = j.node := by
  cases l with
  | or =>
      have h : Parser.orOp? k = some f := h
      unfold Parser.orOp? at h
      split at h
      next => exact ⟨.or, rfl, (Option.some.inj h).symm⟩
      next => cases h
  | and =>
      have h : Parser.andOp? k = some f := h
      unfold Parser.andOp? at h
      split at h
      next => exact ⟨.and, rfl, (Option.some.inj h).symm⟩
      next => cases h
  | sum =>
      have h : Parser.sumOp? k = some f := h
      unfold Parser.sumOp? at h
      split at h
      next => exact ⟨.plus, rfl, (Option.some.inj h).symm⟩
      next => exact ⟨.minus, rfl, (Option.some.inj h).symm⟩
      next => cases h
  | product =>
      have h : Parser.productOp? k = some f := h
      unfold Parser.productOp? at h
      split at h
      next => exact ⟨.times, rfl, (Option.some.inj h).symm⟩
      next => exact ⟨.over, rfl, (Option.some.inj h).symm⟩
      next => cases h

theorem relation?_eq_some_iff {k : Kind} {op : Relation} :
    Parser.relation? k = some op ↔ k = .punct (relationMark op) := by
  constructor
  · intro h
    unfold Parser.relation? at h
    split at h <;> cases h <;> rfl
  · rintro rfl
    cases op <;> rfl

theorem sign?_eq_some_iff {k : Kind} {sign : Sign} :
    Parser.sign? k = some sign ↔ k = .punct (signMark sign) := by
  constructor
  · intro h
    unfold Parser.sign? at h
    split at h <;> cases h <;> rfl
  · rintro rfl
    cases sign <;> rfl

theorem literal?_kind (v : Literal) : Parser.literal? v.kind = some v.node := by
  cases v with
  | integer n => rfl
  | string s => rfl
  | truth b => cases b <;> rfl
  | none => rfl

theorem exists_literal {k : Kind} {x : Node} (h : Parser.literal? k = some x) :
    ∃ v : Literal, k = v.kind ∧ x = v.node := by
  cases k with
  | integer n => exact ⟨.integer n, rfl, (Option.some.inj h).symm⟩
  | string s => exact ⟨.string s, rfl, (Option.some.inj h).symm⟩
  | keyword w =>
      cases w with
      | trueKw => exact ⟨.truth true, rfl, (Option.some.inj h).symm⟩
      | falseKw => exact ⟨.truth false, rfl, (Option.some.inj h).symm⟩
      | noneKw => exact ⟨.none, rfl, (Option.some.inj h).symm⟩
      | _ => cases h
  | _ => cases h

/-! ## Paths and calls -/

theorem splitLast_eq (p : String × List String) :
    Parser.splitLast p = (object p, lastName p) := by
  rcases p with ⟨first, rest⟩
  induction rest generalizing first with
  | nil =>
      rw [Parser.splitLast]
      rfl
  | cons next rest ih =>
      rw [Parser.splitLast, ih]
      simp only [object, lastName, List.getLastD_cons, List.dropLast_cons_cons]

theorem assignment_eq (p : String × List String) (value : Node) :
    Parser.assignment p value = assignment p value := by
  rw [Parser.assignment, splitLast_eq, assignment]
  cases object p with
  | nil => rfl
  | cons first rest => rfl

/-- The parser builds a call exactly where the context conditions allow it. -/
theorem Before.buildCall_eq_ok_iff {ks : List Kind} {classes : List Class} {s t : ParseState Stream}
    (h : Before ks classes s) (line : Nat) {path : List String} {name : String} {args : List Node}
    {x : Node} :
    Parser.buildCall path name args line s = .ok x t
      ↔ Reading.callee path name args classes = some (x, classes) ∧ s = t := by
  cases path with
  | cons first rest => simp [Parser.buildCall, Reading.callee]
  | nil =>
      -- A bare name is a class that is complete, or else `str` with one argument.
      simp only [Parser.buildCall, class?_bind, h.class?_eq, Reading.callee]
      cases classes.find? (·.name = name) with
      | some c => simp
      | none =>
          by_cases hname : name = "str"
          · rcases args with _ | ⟨_, _ | ⟨_, _⟩⟩ <;> simp [hname, Parser.stringifyName, fail_ne_ok]
          · rcases args with _ | ⟨_, _ | ⟨_, _⟩⟩ <;> simp [hname, Parser.stringifyName, fail_ne_ok]

/-! ## Class definitions -/

/-- Where all names are distinct, the name of each finds it. -/
theorem find?_of_nodup_names {α : Type} {nameOf : α → String} {xs : List α}
    (h : (xs.map nameOf).Nodup) {x : α} (hx : x ∈ xs) :
    xs.find? (nameOf · == nameOf x) = some x := by
  have hfound : (xs.find? (nameOf · == nameOf x)).isSome = true :=
    List.find?_isSome.mpr ⟨x, hx, beq_self_eq_true _⟩
  rcases Option.isSome_iff_exists.mp hfound with ⟨y, hy⟩
  have hname : nameOf y = nameOf x := by simpa using List.find?_some hy
  rw [hy, List.inj_on_of_nodup_map h (List.mem_of_find?_eq_some hy) hx hname]

theorem firstRepeat?_eq_none_iff (seen : List String) (methods : List Method) :
    Method.firstRepeat? seen methods = none
      ↔ (methods.map (·.name)).Nodup ∧ ∀ m ∈ methods, m.name ∉ seen := by
  -- The names that were met are gathered from left to right, so they are general in the induction.
  induction methods generalizing seen with
  | nil => simp [Method.firstRepeat?]
  | cons m ms ih =>
      have hnew : (∀ x ∈ ms, x.name ∉ m.name :: seen)
          ↔ m.name ∉ ms.map (·.name) ∧ ∀ x ∈ ms, x.name ∉ seen := by
        simp only [List.mem_cons, List.mem_map, not_or, not_exists, not_and]
        exact ⟨fun h => ⟨fun x hx => (h x hx).1, fun x hx => (h x hx).2⟩,
          fun h x hx => ⟨h.1 x hx, h.2 x hx⟩⟩
      rw [Method.firstRepeat?]
      split
      next hm => simp [hm]
      next hm =>
        rw [ih, hnew, List.map_cons, List.nodup_cons, List.forall_mem_cons]
        exact ⟨fun ⟨hms, hnot, hseen⟩ => ⟨⟨hnot, hms⟩, hm, hseen⟩,
          fun ⟨⟨hnot, hms⟩, _, hseen⟩ => ⟨hms, hnot, hseen⟩⟩

/-- A class is built exactly where its methods have distinct names. -/
theorem build_eq_ok_iff {name : String} {parent : Option Class} {methods : List Method}
    {c : Class} :
    Class.build name parent methods = .ok c
      ↔ (methods.map (·.name)).Nodup ∧ c = ⟨name, parent, methods⟩ := by
  have hdistinct := firstRepeat?_eq_none_iff [] methods
  unfold Class.build
  cases hrepeat : Method.firstRepeat? [] methods with
  | none =>
      rw [hrepeat] at hdistinct
      have hnodup := (hdistinct.mp rfl).1
      simp [hnodup, eq_comm]
  | some m =>
      rw [hrepeat] at hdistinct
      have hrepeated : ¬(methods.map (·.name)).Nodup := by
        intro hnodup
        cases hdistinct.mpr ⟨hnodup, by simp⟩
      simp [hrepeated]

theorem Reading.declare_eq_some_iff {name : String} {parent : Option Class} {methods : List Method}
    {classes after : List Class} {x : Node} :
    declare name parent methods classes = some (x, after)
      ↔ classes.find? (·.name = name) = none ∧ (methods.map (·.name)).Nodup
        ∧ .classDef ⟨name, parent, methods⟩ = x ∧ ⟨name, parent, methods⟩ :: classes = after := by
  have hnew : classes.find? (·.name = name) = none ↔ ∀ c ∈ classes, c.name ≠ name := by simp
  rw [hnew, declare]
  by_cases hcontext : (∀ c ∈ classes, c.name ≠ name) ∧ (methods.map (·.name)).Nodup
  · rw [if_pos hcontext, Option.some.injEq, Prod.mk.injEq]
    exact ⟨fun h => ⟨hcontext.1, hcontext.2, h⟩, fun h => h.2.2⟩
  · rw [if_neg hcontext]
    exact ⟨nofun, fun h => absurd ⟨h.1, h.2.1⟩ hcontext⟩

/-! ## Phrases without definitions -/

namespace Reading

/-- What is read leaves the classes as they are. -/
def Keeps {α : Type} (r : Reading α) : Prop :=
  ∀ ⦃classes after : List Class⦄ ⦃a : α⦄, r classes = some (a, after) → after = classes

namespace Keeps

variable {α β : Type}

theorem pure (a : α) : Keeps (pure a : Reading α) :=
  fun _ _ _ h => (eq_of_pure_eq_some h).2.symm

theorem bind {r : Reading α} {f : α → Reading β} (hr : Keeps r) (hf : ∀ a, Keeps (f a)) :
    Keeps (r >>= f) := by
  intro classes after b h
  rcases bind_eq_some h with ⟨a, between, ha, hb⟩
  rw [hf a hb, hr ha]

theorem callee (path : List String) (name : String) (args : List Node) :
    Keeps (Reading.callee path name args) := by
  intro classes after x h
  unfold Reading.callee at h
  split at h
  next => exact (Prod.mk.inj (Option.some.inj h)).2.symm
  next => exact (Prod.mk.inj (Option.some.inj h)).2.symm
  next =>
    split at h
    next =>
      split at h
      next => exact (Prod.mk.inj (Option.some.inj h)).2.symm
      next => cases h
    next => cases h

end Keeps

end Reading

namespace Symbol

/-- Whether a class may be defined inside a phrase. -/
def defines : Symbol → Bool
  | .many s | .option s | .after _ s | .list s => s.defines
  | .block | .statement | .alternative | .method => true
  | _ => false

end Symbol

/-- Phrases without definitions leave the classes as they are. -/
theorem Phrase.keeps {s : Symbol} (d : Phrase s) (hs : s.defines = false) :
    Reading.Keeps d.meaning := by
  induction d with
  | name n => exact .pure n
  | path first rest ihFirst ihRest =>
      exact (ihFirst hs).bind fun _ => (ihRest hs).bind fun _ => .pure _
  | done => exact .pure []
  | more x xs ihX ihXs => exact (ihX hs).bind fun _ => (ihXs hs).bind fun _ => .pure _
  | absent => exact .pure none
  | present x ihX => exact (ihX hs).bind fun _ => .pure _
  | after p x ihX => exact ihX hs
  | noItems => exact .pure []
  | items first rest ihFirst ihRest => exact (ihFirst hs).bind fun _ => (ihRest hs).bind fun _ => .pure _
  | chain first rest ihFirst ihRest =>
      exact (ihFirst rfl).bind fun _ => (ihRest rfl).bind fun _ => .pure _
  | link j right ihRight => exact (ihRight rfl).bind fun _ => .pure _
  | not x ihX => exact (ihX rfl).bind fun _ => .pure _
  | compared x ihX => exact ihX rfl
  | comparison left right ihLeft ihRight =>
      exact (ihLeft rfl).bind fun _ => (ihRight rfl).bind fun _ => .pure _
  | relation op right ihRight => exact (ihRight rfl).bind fun _ => .pure _
  | signed sign x ihX => exact (ihX rfl).bind fun _ => .pure _
  | unsigned x ihX => exact ihX rfl
  | literal v => exact .pure v.node
  | reference p applied ihP ihApplied =>
      refine (ihP rfl).bind fun called => (ihApplied rfl).bind fun applied => ?_
      -- What the call means depends on the classes, but a look-up adds none.
      cases applied with
      | none => exact .pure _
      | some applied => exact (Reading.Keeps.callee _ _ _).bind fun _ => .pure _
  | group x calls ihX ihCalls => exact (ihX rfl).bind fun _ => (ihCalls rfl).bind fun _ => .pure _
  | application args calls ihArgs ihCalls =>
      exact (ihArgs rfl).bind fun _ => (ihCalls rfl).bind fun _ => .pure _
  | call m args ihM ihArgs =>
      exact (ihM rfl).bind fun _ => (ihArgs rfl).bind fun _ => .pure _
  | ret x ihX => exact (ihX rfl).bind fun _ => .pure _
  | print args ihArgs => exact (ihArgs rfl).bind fun _ => .pure _
  | assign target value ihTarget ihValue =>
      exact (ihTarget rfl).bind fun _ => (ihValue rfl).bind fun _ => .pure _
  | apply callee applied ihCallee ihApplied =>
      exact (ihCallee rfl).bind fun p => (ihApplied rfl).bind fun applied =>
        (Reading.Keeps.callee _ _ _).bind fun _ => .pure _
  -- Inside these a class may be defined.
  | block body => cases hs
  | simple x => cases hs
  | conditional condition thenBody elseBody => cases hs
  | alternative body => cases hs
  | classDefinition n parent methods => cases hs
  | base n ihN =>
      refine (ihN rfl).bind fun name classes after c h => ?_
      rcases Option.map_eq_some_iff.mp h with ⟨c, -, hc⟩
      cases hc
      rfl
  | method n params body => cases hs

end Grammar
end Offside
