import Offside.Proofs.Evaluation.Record

/-!
# Depth — an evaluation and a deeper one side by side

The depth that an evaluation is given bounds how far it nests.  This file follows two evaluations of one
node, the second to a depth at least as great:

- `Tandem`    : a relation of recorded steps that composition keeps and that holds of whatever stands
  beside a step that is cut off
- `Continues` : the second step does what the first one does, and where the first is cut off, what the
  first has done until then is the beginning of what the second does

One induction on the depth shows that a relation of the first kind holds of both evaluations
(`Tandem.evaluation`); a property of single steps is the case in which the second step is not looked at.
The relation of the second kind is one of them, so that an evaluation that was not cut off does not notice
a greater depth (`eval_deeper`).
-/

namespace Offside

open Recorded (silent announced)

/-! ## Two steps side by side -/

/-- The relation `R` of steps of a machine and the relation `E` of steps of a frame hold between the steps
of the evaluator and what is composed of them. Beside a step that is cut off there may be any other. -/
structure Tandem (R : ∀ {α : Type}, RecordedRun α → RecordedRun α → Prop)
    (E : ∀ {α : Type}, RecordedExec α → RecordedExec α → Prop) : Prop where
  runPure {α : Type} (x : α) : R (pure x : RecordedRun α) (pure x)
  runBind {α β : Type} {p p' : RecordedRun α} {f f' : α → RecordedRun β} (hp : R p p')
    (hf : ∀ x, R (f x) (f' x)) : R (p >>= f) (p' >>= f')
  runThrow {α : Type} (e : Fault) :
    R (silent (throw e) : RecordedRun α) (silent (throw e))
  runCutOff {α : Type} (q : RecordedRun α) : R (silent (throw .exhausted)) q
  notice (n : Notice) : R (silent (Run.notice n)) (silent (Run.notice n))
  create (c : Class) : R (Recorded.create c) (Recorded.create c)
  setField (address : Address) (field : String) (value : Value) :
    R (Recorded.setField address field value) (Recorded.setField address field value)
  writeTexts (texts : List String) : R (Recorded.writeTexts texts) (Recorded.writeTexts texts)
  /-- The announced step is the rendering of the value. -/
  shows {value : Value} {n : Nat} {p p' : RecordedRun String} (hstep : p.step = render n value)
    (hp : R p p') : R (announced (.shows value) p) (announced (.shows value) p')
  body {p p' : RecordedExec Value} (hp : E p p') (locals : Scope) :
    R (Recorded.body p locals) (Recorded.body p' locals)
  pure {α : Type} (x : α) : E (pure x : RecordedExec α) (pure x)
  bind {α β : Type} {p p' : RecordedExec α} {f f' : α → RecordedExec β} (hp : E p p')
    (hf : ∀ x, E (f x) (f' x)) : E (p >>= f) (p' >>= f')
  throw {α : Type} (e : Exit) : E (silent (throw e) : RecordedExec α) (silent (throw e))
  cutOff {α : Type} (q : RecordedExec α) : E (silent Exec.exhausted) q
  ofRun {α : Type} {p p' : RecordedRun α} (hp : R p p') : E (Recorded.ofRun p) (Recorded.ofRun p')
  lookup (path : List String) : E (silent (Exec.lookup path)) (silent (Exec.lookup path))
  lookupInstance (path : List String) :
    E (silent (Exec.lookupInstance path)) (silent (Exec.lookupInstance path))
  assign (name : String) (value : Value) :
    E (silent (Exec.bind name value)) (silent (Exec.bind name value))

namespace Tandem

variable {R : ∀ {α : Type}, RecordedRun α → RecordedRun α → Prop}
  {E : ∀ {α : Type}, RecordedExec α → RecordedExec α → Prop}

/-! ## Repetition -/

theorem runOfExcept (h : Tandem @R @E) {α : Type} (x : Except RuntimeError α) :
    R (silent (Run.ofExcept x)) (silent (Run.ofExcept x)) := by
  cases x with
  | ok a => exact h.runPure a
  | error e => exact h.runThrow (.error e)

theorem ofExcept (h : Tandem @R @E) {α : Type} (x : Except RuntimeError α) :
    E (silent (Exec.ofExcept x)) (silent (Exec.ofExcept x)) :=
  h.ofRun (h.runOfExcept x)

theorem block (h : Tandem @R @E) {eval eval' : Node → RecordedExec Value}
    (heval : ∀ x, E (eval x) (eval' x)) (statements : List Node) :
    E (Recorded.block eval statements) (Recorded.block eval' statements) := by
  induction statements with
  | nil => exact h.pure Value.none
  | cons statement rest ih => exact h.bind (heval statement) fun _ => ih

theorem each (h : Tandem @R @E) {α β : Type} {f f' : α → RecordedExec β}
    (hf : ∀ x, E (f x) (f' x)) (xs : List α) : E (Recorded.each f xs) (Recorded.each f' xs) := by
  induction xs with
  | nil => exact h.pure []
  | cons x xs ih => exact h.bind (hf x) fun y => h.bind ih fun ys => h.pure (y :: ys)

/-! ## Comparison -/

section Comparison

variable {call call' : Value → String → List Value → RecordedRun Value}
  (hcall : ∀ receiver name args, R (call receiver name args) (call' receiver name args))
include hcall

theorem ask (h : Tandem @R @E) (left right : Value) (method : String) :
    R (Recorded.ask call left right method) (Recorded.ask call' left right method) := by
  cases left with
  | inst c address =>
      rw [Recorded.ask, Recorded.ask]
      by_cases hunderstands : c.understands method 1 = true
      · rw [if_pos hunderstands, if_pos hunderstands]
        exact h.runBind (hcall _ _ _) fun answer => h.runPure (some answer.truthy)
      · rw [if_neg hunderstands, if_neg hunderstands]
        exact h.runPure none
  | _ => exact h.runPure none

theorem less (h : Tandem @R @E) (left right : Value) :
    R (Recorded.less call left right) (Recorded.less call' left right) := by
  rw [Recorded.less, Recorded.less]
  cases left.order? right with
  | some o => exact h.runPure (o == .lt)
  | none =>
      refine h.runBind (h.ask hcall left right "__lt__") fun answer => ?_
      cases answer with
      | some answer => exact h.runPure answer
      | none => exact h.runThrow _

theorem equal (h : Tandem @R @E) (left right : Value) :
    R (Recorded.equal call left right) (Recorded.equal call' left right) := by
  rw [Recorded.equal, Recorded.equal]
  cases left.order? right with
  | some o => exact h.runPure (o == .eq)
  | none =>
      refine h.runBind (h.ask hcall left right "__eq__") fun answer => ?_
      cases answer with
      | some answer => exact h.runPure answer
      | none =>
          by_cases hnone : (left.isNone && right.isNone) = true
          · simp only [if_pos hnone]
            exact h.runPure true
          · simp only [if_neg hnone]
            exact h.runThrow _

theorem lessEqual (h : Tandem @R @E) (left right : Value) :
    R (Recorded.lessEqual call left right) (Recorded.lessEqual call' left right) := by
  refine h.runBind (h.less hcall left right) fun smaller => ?_
  cases smaller with
  | true => exact h.runPure true
  | false => exact h.equal hcall left right

theorem greater (h : Tandem @R @E) (left right : Value) :
    R (Recorded.greater call left right) (Recorded.greater call' left right) := by
  refine h.runBind (h.less hcall left right) fun smaller => ?_
  cases smaller with
  | true => exact h.runPure false
  | false => exact h.runBind (h.equal hcall left right) fun answer => h.runPure !answer

theorem compare (h : Tandem @R @E) (op : Relation) (left right : Value) :
    R (Recorded.compare call op left right) (Recorded.compare call' op left right) := by
  cases op with
  | less => exact h.less hcall left right
  | lessEqual => exact h.lessEqual hcall left right
  | greater => exact h.greater hcall left right
  | greaterEqual => exact h.runBind (h.less hcall left right) fun answer => h.runPure !answer
  | equal => exact h.equal hcall left right
  | notEqual => exact h.runBind (h.equal hcall left right) fun answer => h.runPure !answer

end Comparison

/-! ## The evaluator -/

/-- Evaluations, method calls and renderings to one depth stand beside those to another. -/
structure RelatesTo (R : ∀ {α : Type}, RecordedRun α → RecordedRun α → Prop)
    (E : ∀ {α : Type}, RecordedExec α → RecordedExec α → Prop) (n n' : Nat) : Prop where
  eval (x : Node) : E (Recorded.eval n x) (Recorded.eval n' x)
  invoke (receiver : Value) (name : String) (args : List Value) :
    R (Recorded.invoke n receiver name args) (Recorded.invoke n' receiver name args)
  render (value : Value) : R (Recorded.render n value) (Recorded.render n' value)

section Deeper

variable {n n' : Nat}

theorem invoke_succ (h : Tandem @R @E) (ih : RelatesTo @R @E n n') (receiver : Value)
    (name : String) (args : List Value) :
    R (Recorded.invoke (n + 1) receiver name args) (Recorded.invoke (n' + 1) receiver name args) := by
  cases receiver with
  | inst c address =>
      rw [Recorded.invoke, Recorded.invoke]
      refine h.runBind (h.runOfExcept (Run.dispatch c name args)) fun m => ?_
      exact h.runBind (h.notice _) fun _ => h.body (ih.eval m.body) _
  | _ => exact h.runThrow _

theorem render_succ (h : Tandem @R @E) (ih : RelatesTo @R @E n n') (value : Value) :
    R (Recorded.render (n + 1) value) (Recorded.render (n' + 1) value) := by
  cases value with
  | inst c address =>
      have hstep := Recorded.step_render (n + 1) (.inst c address)
      rw [Recorded.render] at hstep ⊢
      rw [Recorded.render]
      refine h.shows hstep ?_
      by_cases hshown : c.understands "__str__" 0 = true
      · rw [if_pos hshown, if_pos hshown]
        exact h.runBind (ih.invoke _ _ _) fun shown => ih.render shown
      · rw [if_neg hshown, if_neg hshown]
        exact h.runPure _
  | _ => exact h.shows (n := n + 1) rfl (h.runPure _)

theorem construct_succ (h : Tandem @R @E) (ih : RelatesTo @R @E n n') (c : Class)
    (args : List Node) :
    E (Recorded.eval (n + 1) (.construct c args)) (Recorded.eval (n' + 1) (.construct c args)) := by
  rw [Recorded.eval, Recorded.eval]
  refine h.bind (h.ofRun (h.notice _)) fun _ => h.bind (h.ofRun (h.create c)) fun created => ?_
  cases c.method? "__init__" with
  | none => exact h.pure created
  | some m =>
      exact h.bind (h.each ih.eval args) fun values =>
        h.bind (h.ofRun (ih.invoke _ _ _)) fun _ => h.pure created

theorem ifElse_succ (h : Tandem @R @E) (ih : RelatesTo @R @E n n') (condition thenBody : Node)
    (elseBody : Option Node) :
    E (Recorded.eval (n + 1) (.ifElse condition thenBody elseBody))
      (Recorded.eval (n' + 1) (.ifElse condition thenBody elseBody)) := by
  have hbody : ∀ body, E (do let _ ← Recorded.eval n body; return Value.none)
      (do let _ ← Recorded.eval n' body; return Value.none) :=
    fun body => h.bind (ih.eval body) fun _ => h.pure Value.none
  cases elseBody with
  | none =>
      rw [Recorded.eval, Recorded.eval]
      refine h.bind (ih.eval condition) fun a => ?_
      by_cases ha : a.truthy = true
      · rw [if_pos ha, if_pos ha]
        exact hbody thenBody
      · rw [if_neg ha, if_neg ha]
        exact h.pure Value.none
  | some body =>
      rw [Recorded.eval, Recorded.eval]
      refine h.bind (ih.eval condition) fun a => ?_
      by_cases ha : a.truthy = true
      · rw [if_pos ha, if_pos ha]
        exact hbody thenBody
      · rw [if_neg ha, if_neg ha]
        exact hbody body

theorem eval_succ (h : Tandem @R @E) (ih : RelatesTo @R @E n n') (x : Node) :
    E (Recorded.eval (n + 1) x) (Recorded.eval (n' + 1) x) := by
  cases x with
  | construct c args => exact h.construct_succ ih c args
  | ifElse condition thenBody elseBody => exact h.ifElse_succ ih condition thenBody elseBody
  | constant value =>
      rw [Recorded.eval, Recorded.eval]
      exact h.pure value
  | none =>
      rw [Recorded.eval, Recorded.eval]
      exact h.pure Value.none
  | «variable» path =>
      rw [Recorded.eval, Recorded.eval]
      exact h.lookup path
  | arithmetic op left right =>
      rw [Recorded.eval, Recorded.eval]
      exact h.bind (ih.eval left) fun a => h.bind (ih.eval right) fun b => h.ofExcept _
  | signed sign operand =>
      rw [Recorded.eval, Recorded.eval]
      exact h.bind (ih.eval operand) fun a => h.ofExcept _
  | not operand =>
      rw [Recorded.eval, Recorded.eval]
      exact h.bind (ih.eval operand) fun a => h.pure _
  | logical op left right =>
      rw [Recorded.eval, Recorded.eval]
      exact h.bind (ih.eval left) fun a => h.bind (ih.eval right) fun b => h.pure _
  | comparison op left right =>
      rw [Recorded.eval, Recorded.eval]
      exact h.bind (ih.eval left) fun a => h.bind (ih.eval right) fun b =>
        h.bind (h.ofRun (h.compare ih.invoke op a b)) fun answer => h.pure _
  | assign name value =>
      rw [Recorded.eval, Recorded.eval]
      exact h.bind (ih.eval value) fun a => h.bind (h.assign name a) fun _ => h.pure a
  | setField path field value =>
      rw [Recorded.eval, Recorded.eval]
      exact h.bind (ih.eval value) fun a => h.bind (h.lookupInstance path) fun address =>
        h.bind (h.ofRun (h.setField address field a)) fun _ => h.pure a
  | block statements =>
      rw [Recorded.eval, Recorded.eval]
      exact h.block ih.eval statements
  | print args =>
      rw [Recorded.eval, Recorded.eval]
      have htexts := h.each (fun arg => h.bind (ih.eval arg) fun a => h.ofRun (ih.render a)) args
      exact h.bind htexts fun texts => h.bind (h.ofRun (h.writeTexts texts)) fun _ =>
        h.pure Value.none
  | call receiver method args =>
      rw [Recorded.eval, Recorded.eval]
      exact h.bind (h.each ih.eval args) fun values => h.bind (ih.eval receiver) fun target =>
        h.ofRun (ih.invoke target method values)
  | stringify operand =>
      rw [Recorded.eval, Recorded.eval]
      exact h.bind (ih.eval operand) fun a => h.bind (h.ofRun (ih.render a)) fun text => h.pure _
  | ret value =>
      rw [Recorded.eval, Recorded.eval]
      exact h.bind (ih.eval value) fun a => h.throw (.returned a)
  | classDef c =>
      rw [Recorded.eval, Recorded.eval]
      exact h.bind (h.assign _ _) fun _ => h.pure Value.none

end Deeper

/-- What relates the steps relates an evaluation to every deeper one. -/
theorem evaluation (h : Tandem @R @E) {n n' : Nat} (hn : n ≤ n') : RelatesTo @R @E n n' := by
  -- Evaluation, calls and rendering use each other one level further down.
  induction n generalizing n' with
  | zero =>
      exact {
        eval := fun x => by
          rw [Recorded.eval]
          exact h.cutOff _
        invoke := fun receiver name args => by
          rw [Recorded.invoke]
          exact h.runCutOff _
        render := fun value => by
          rw [Recorded.render]
          exact h.runCutOff _ }
  | succ n ih =>
      cases n' with
      | zero => exact absurd hn (Nat.not_succ_le_zero n)
      | succ n' =>
          have hdown := ih (Nat.le_of_succ_le_succ hn)
          exact ⟨h.eval_succ hdown, h.invoke_succ hdown, h.render_succ hdown⟩

end Tandem

/-! ## Steps that are continued -/

section Steps

variable {ε σ α β : Type}

/-- The step ends in a certain failure. -/
def FailsWith (e : ε) (r : EStateM.Result ε σ α) : Prop :=
  ∃ s, r = .error e s

theorem not_failsWith_ok {e : ε} {x : α} {s : σ} :
    ¬FailsWith e (.ok x s : EStateM.Result ε σ α) :=
  nofun

theorem failsWith_error {e e' : ε} {s : σ} :
    FailsWith e (.error e' s : EStateM.Result ε σ α) ↔ e' = e := by
  constructor
  · rintro ⟨t, ht⟩
    cases ht
    rfl
  · rintro rfl
    exact ⟨s, rfl⟩

/-- What fails at first fails as a whole. -/
theorem FailsWith.bind {e : ε} {p : EStateM ε σ α} {f : α → EStateM ε σ β} {s : σ}
    (h : FailsWith e (p s)) : FailsWith e ((p >>= f) s) := by
  rcases h with ⟨t, ht⟩
  exact ⟨t, bind_of_error ht⟩

theorem failsWith_ofRun_iff {p : Run α} {f : Frame} :
    FailsWith (.fault .exhausted) (Exec.ofRun p f) ↔ FailsWith .exhausted (p f.machine) := by
  rw [Exec.ofRun]
  cases p f.machine with
  | ok x m => exact ⟨nofun, nofun⟩
  | error e m => rw [failsWith_error, failsWith_error, Exit.fault.injEq]

/-- A body is cut off where what it runs is, as a return is no failure. -/
theorem failsWith_body_iff {p : Exec Value} {locals : Scope} {m : Machine} :
    FailsWith .exhausted (Run.body p locals m)
      ↔ FailsWith (.fault .exhausted) (p ⟨locals, m⟩) := by
  rw [Run.body]
  rcases p ⟨locals, m⟩ with ⟨x, f⟩ | ⟨value | e, f⟩
  · exact ⟨nofun, nofun⟩
  · exact ⟨nofun, nofun⟩
  · rw [failsWith_error, failsWith_error, Exit.fault.injEq]

/-- The second step goes on where the first one ends in the failure `e`, and else does the same. -/
structure Continues (e : ε) (p q : Recorded ε σ α) : Prop where
  begins : ∀ s, p.events s <+: q.events s
  agrees : ∀ s, ¬FailsWith e (p.step s) → q.step s = p.step s ∧ q.events s = p.events s

namespace Continues

variable {e : ε}

theorem refl (p : Recorded ε σ α) : Continues e p p :=
  ⟨fun _ => List.prefix_refl _, fun _ _ => ⟨rfl, rfl⟩⟩

/-- Nothing has been done by a step that only fails. -/
theorem of_throw (q : Recorded ε σ α) : Continues e (silent (throw e)) q :=
  ⟨fun _ => List.nil_prefix, fun s h => absurd ⟨s, rfl⟩ h⟩

theorem bind {p q : Recorded ε σ α} {f g : α → Recorded ε σ β} (hp : Continues e p q)
    (hf : ∀ x, Continues e (f x) (g x)) : Continues e (p >>= f) (q >>= g) := by
  constructor
  · intro s
    have hbegins := hp.begins s
    cases hstep : p.step s with
    | ok x t =>
        have hsame := hp.agrees s (hstep ▸ not_failsWith_ok)
        rw [hstep] at hsame
        rw [Recorded.events_bind_of_ok hstep, Recorded.events_bind_of_ok hsame.1, hsame.2]
        exact (List.prefix_append_right_inj _).mpr ((hf x).begins t)
    | error e' t =>
        rw [Recorded.events_bind_of_error hstep]
        exact hbegins.trans (List.prefix_append _ _)
  · intro s hfails
    have hsame := hp.agrees s (mt FailsWith.bind hfails)
    cases hstep : p.step s with
    | ok x t =>
        rw [hstep] at hsame
        rw [Recorded.step_bind, bind_of_ok hstep] at hfails
        have hlater := (hf x).agrees t hfails
        rw [Recorded.step_bind, Recorded.step_bind, bind_of_ok hstep, bind_of_ok hsame.1,
          Recorded.events_bind_of_ok hstep, Recorded.events_bind_of_ok hsame.1, hsame.2]
        exact ⟨hlater.1, congrArg _ hlater.2⟩
    | error e' t =>
        rw [hstep] at hsame
        rw [Recorded.step_bind, Recorded.step_bind, bind_of_error hstep, bind_of_error hsame.1,
          Recorded.events_bind_of_error hstep, Recorded.events_bind_of_error hsame.1]
        exact ⟨rfl, hsame.2⟩

theorem announced {p q : Recorded ε σ α} (h : Continues e p q) (event : σ → Event) :
    Continues e (announced event p) (announced event q) where
  begins s := List.prefix_cons_inj _ |>.mpr (h.begins s)
  agrees s hfails := by
    have hsame := h.agrees s hfails
    exact ⟨hsame.1, congrArg _ hsame.2⟩

theorem ofRun {p q : RecordedRun α} (h : Continues .exhausted p q) :
    Continues (.fault .exhausted) (Recorded.ofRun p) (Recorded.ofRun q) where
  begins f := h.begins f.machine
  agrees f hfails := by
    have hsame := h.agrees f.machine (mt failsWith_ofRun_iff.mpr hfails)
    refine ⟨?_, hsame.2⟩
    rw [Recorded.step_ofRun, Recorded.step_ofRun, Exec.ofRun, Exec.ofRun, hsame.1]

theorem body {p q : RecordedExec Value} (h : Continues (.fault .exhausted) p q)
    (locals : Scope) : Continues .exhausted (Recorded.body p locals) (Recorded.body q locals) where
  begins m := h.begins ⟨locals, m⟩
  agrees m hfails := by
    have hsame := h.agrees ⟨locals, m⟩ (mt failsWith_body_iff.mpr hfails)
    refine ⟨?_, hsame.2⟩
    show Run.body q.step locals m = Run.body p.step locals m
    rw [Run.body, Run.body, hsame.1]

end Continues

end Steps

theorem continues_tandem : Tandem (Continues .exhausted) (Continues (.fault .exhausted)) where
  runPure _ := .refl _
  runBind := .bind
  runThrow _ := .refl _
  runCutOff := .of_throw
  notice _ := .refl _
  create _ := .refl _
  setField _ _ _ := .refl _
  writeTexts _ := .refl _
  shows _ hp := hp.announced _
  body hp locals := hp.body locals
  pure _ := .refl _
  bind := .bind
  throw _ := .refl _
  cutOff := .of_throw
  ofRun hp := hp.ofRun
  lookup _ := .refl _
  lookupInstance _ := .refl _
  assign _ _ := .refl _

/-! ## More depth -/

section Deeper

variable {n n' : Nat} (hn : n ≤ n')
include hn

theorem continues_eval (x : Node) :
    Continues (.fault .exhausted) (Recorded.eval n x) (Recorded.eval n' x) :=
  (continues_tandem.evaluation hn).eval x

theorem continues_invoke (receiver : Value) (name : String) (args : List Value) :
    Continues .exhausted (Recorded.invoke n receiver name args)
      (Recorded.invoke n' receiver name args) :=
  (continues_tandem.evaluation hn).invoke receiver name args

theorem continues_render (value : Value) :
    Continues .exhausted (Recorded.render n value) (Recorded.render n' value) :=
  (continues_tandem.evaluation hn).render value

/-- An evaluation that was not cut off does not notice a greater depth. -/
theorem eval_deeper {x : Node} {f : Frame} (h : ¬FailsWith (.fault .exhausted) (eval n x f)) :
    eval n' x f = eval n x f := by
  rw [← Recorded.step_eval] at h
  have hsame := ((continues_eval hn x).agrees f h).1
  rwa [Recorded.step_eval, Recorded.step_eval] at hsame

theorem invoke_deeper {receiver : Value} {name : String} {args : List Value} {m : Machine}
    (h : ¬FailsWith .exhausted (invoke n receiver name args m)) :
    invoke n' receiver name args m = invoke n receiver name args m := by
  rw [← Recorded.step_invoke] at h
  have hsame := ((continues_invoke hn receiver name args).agrees m h).1
  rwa [Recorded.step_invoke, Recorded.step_invoke] at hsame

theorem render_deeper {value : Value} {m : Machine}
    (h : ¬FailsWith .exhausted (render n value m)) : render n' value m = render n value m := by
  rw [← Recorded.step_render] at h
  have hsame := ((continues_render hn value).agrees m h).1
  rwa [Recorded.step_render, Recorded.step_render] at hsame

end Deeper

/-- Calls that are not cut off do the same, whatever their depths. -/
theorem invoke_agree {depth depth' : Nat} {receiver : Value} {name : String} {args : List Value}
    {m : Machine} (h : ¬FailsWith .exhausted (invoke depth receiver name args m))
    (h' : ¬FailsWith .exhausted (invoke depth' receiver name args m)) :
    invoke depth receiver name args m = invoke depth' receiver name args m := by
  calc invoke depth receiver name args m
      = invoke (max depth depth') receiver name args m :=
        (invoke_deeper (Nat.le_max_left _ _) h).symm
    _ = invoke depth' receiver name args m := invoke_deeper (Nat.le_max_right _ _) h'

end Offside
