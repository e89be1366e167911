import Offside.Proofs.Evaluation.Depth

/-!
# Composition — what holds of every evaluation

An evaluation is composed of few kinds of steps.  This file names them (`Composition`).  A property which
the steps have and which composition keeps is one of every evaluation, method call and rendering
(`Composition.evaluation`), whatever the program: it is a relation of two evaluations, as `Tandem` has
them, that looks at the first one only.
-/

namespace Offside

/-- The property `R` of steps of a machine and the property `E` of steps of a frame hold of the steps of
the evaluator and of what is composed of steps with them. -/
structure Composition (R : ∀ {α : Type}, Run α → Prop) (E : ∀ {α : Type}, Exec α → Prop) :
    Prop where
  runPure {α : Type} (x : α) : R (pure x : Run α)
  runBind {α β : Type} {p : Run α} {f : α → Run β} (hp : R p) (hf : ∀ x, R (f x)) : R (p >>= f)
  runThrow {α : Type} (f : Fault) : R (throw f : Run α)
  notice (n : Notice) : R (Run.notice n)
  create (c : Class) : R (Run.create c)
  setField (address : Address) (field : String) (value : Value) : R (Run.setField address field value)
  writeLine (text : String) : R (Run.writeLine text)
  body {step : Exec Value} (hstep : E step) (locals : Scope) : R (Run.body step locals)
  pure {α : Type} (x : α) : E (pure x : Exec α)
  bind {α β : Type} {p : Exec α} {f : α → Exec β} (hp : E p) (hf : ∀ x, E (f x)) : E (p >>= f)
  throw {α : Type} (e : Exit) : E (throw e : Exec α)
  ofRun {α : Type} {p : Run α} (hp : R p) : E (Exec.ofRun p)
  lookup (path : List String) : E (Exec.lookup path)
  lookupInstance (path : List String) : E (Exec.lookupInstance path)
  assign (name : String) (value : Value) : E (Exec.bind name value)

namespace Composition

variable {R : ∀ {α : Type}, Run α → Prop} {E : ∀ {α : Type}, Exec α → Prop}

/-! ## Repetition -/

theorem block (h : Composition @R @E) {eval : Node → Exec Value} (heval : ∀ x, E (eval x))
    (body : List Node) : E (Exec.block eval body) := by
  induction body with
  | nil => exact h.pure Value.none
  | cons statement rest ih => exact h.bind (heval statement) fun _ => ih

/-! ## The evaluator -/

/-- A property of steps is a relation of recorded steps that looks at the first one and not at its
record. -/
theorem tandem (h : Composition @R @E) : Tandem (fun p _ => R p.step) (fun p _ => E p.step) where
  runPure := h.runPure
  runBind hp hf := h.runBind hp hf
  runThrow := h.runThrow
  runCutOff _ := h.runThrow .exhausted
  notice := h.notice
  create := h.create
  setField := h.setField
  writeTexts texts := h.writeLine (String.intercalate " " texts)
  shows _ hp := hp
  body hp locals := h.body hp locals
  pure := h.pure
  bind hp hf := h.bind hp hf
  throw := h.throw
  cutOff _ := h.throw (.fault .exhausted)
  ofRun hp := h.ofRun hp
  lookup := h.lookup
  lookupInstance := h.lookupInstance
  assign := h.assign

/-- Evaluations, method calls and renderings down to a depth. -/
structure HoldsTo (R : ∀ {α : Type}, Run α → Prop) (E : ∀ {α : Type}, Exec α → Prop) (n : Nat) :
    Prop where
  eval (x : Node) : E (eval n x)
  invoke (receiver : Value) (name : String) (args : List Value) : R (invoke n receiver name args)
  render (value : Value) : R (render n value)

/-- Whatever the steps have and composition keeps holds to every depth. -/
theorem evaluation (h : Composition @R @E) (n : Nat) : HoldsTo @R @E n := by
  have hrecorded := h.tandem.evaluation (Nat.le_refl n)
  constructor
  · intro x
    rw [← Recorded.step_eval]
    exact hrecorded.eval x
  · intro receiver name args
    rw [← Recorded.step_invoke]
    exact hrecorded.invoke receiver name args
  · intro value
    rw [← Recorded.step_render]
    exact hrecorded.render value

end Composition

end Offside
