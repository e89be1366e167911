import Offside.Exec.Execution
import Offside.Proofs.Results

/-!
# Record — evaluation together with what it does

An evaluation gives an outcome and a state, and the way there is lost.  This file keeps the way:

- `Event`         : an instance is created, a field is written, a rendering begins, a print completes
- `Recorded`      : a step together with the events that it consists of, from each state
- `Recorded.eval` : the evaluator, composed of recorded steps

The recorded evaluator is the one that programs run on and nothing else: without the record the two are
equal (`Recorded.step_eval`).  The events of a program are listed to a depth; `Depth` shows that a greater
depth only adds to the list.
-/

namespace Offside

/-! ## Events -/

inductive Event where
  /-- An instance of a class gets an address. -/
  | creates (c : Class) (address : Address)
  /-- A value is written to a field of the instance at an address. -/
  | stores (address : Address) (field : String) (value : Value)
  /-- The text of a value begins to be made, on this machine. -/
  | shows (value : Value) (m : Machine)
  /-- A print writes its line, made of these texts. -/
  | prints (texts : List String)

/-- A step together with the events that it consists of, from each state. -/
structure Recorded (ε σ α : Type) where
  step : EStateM ε σ α
  events : σ → List Event

/-- Recorded steps that change a machine. -/
abbrev RecordedRun := Recorded Fault Machine

/-- Recorded steps that change a frame. -/
abbrev RecordedExec := Recorded Exit Frame

namespace Recorded

section Steps

variable {ε σ α β : Type}

/-- A step that is no event. -/
def silent (p : EStateM ε σ α) : Recorded ε σ α :=
  ⟨p, fun _ => []⟩

/-- A step that is an event unless it fails. -/
def noted (event : σ → Event) (p : EStateM ε σ α) : Recorded ε σ α :=
  ⟨p, fun s => match p s with
    | .ok .. => [event s]
    | .error .. => []⟩

/-- A step that begins with an event. -/
def announced (event : σ → Event) (p : Recorded ε σ α) : Recorded ε σ α :=
  ⟨p.step, fun s => event s :: p.events s⟩

/-- What follows a step that fails is no part of the record. -/
instance : Monad (Recorded ε σ) where
  pure x := silent (pure x)
  bind p f :=
    ⟨do let x ← p.step; (f x).step,
      fun s => p.events s ++ match p.step s with
        | .ok x t => (f x).events t
        | .error .. => []⟩

@[simp] theorem step_silent (p : EStateM ε σ α) : (silent p).step = p := rfl

@[simp] theorem step_noted (event : σ → Event) (p : EStateM ε σ α) :
    (noted event p).step = p := rfl

@[simp] theorem step_announced (event : σ → Event) (p : Recorded ε σ α) :
    (announced event p).step = p.step := rfl

@[simp] theorem step_pure (x : α) : (pure x : Recorded ε σ α).step = pure x := rfl

@[simp] theorem step_bind (p : Recorded ε σ α) (f : α → Recorded ε σ β) :
    (p >>= f).step = p.step >>= fun x => (f x).step := rfl

theorem events_noted_of_ok {p : EStateM ε σ α} {event : σ → Event} {s t : σ} {x : α}
    (h : p s = .ok x t) : (noted event p).events s = [event s] := by
  simp only [noted, h]

theorem events_noted_of_error {p : EStateM ε σ α} {event : σ → Event} {s t : σ} {e : ε}
    (h : p s = .error e t) : (noted event p).events s = [] := by
  simp only [noted, h]

theorem events_bind_of_ok {p : Recorded ε σ α} {f : α → Recorded ε σ β} {s t : σ} {x : α}
    (h : p.step s = .ok x t) : (p >>= f).events s = p.events s ++ (f x).events t := by
  show p.events s ++ _ = _
  rw [h]

theorem events_bind_of_error {p : Recorded ε σ α} {f : α → Recorded ε σ β} {s t : σ} {e : ε}
    (h : p.step s = .error e t) : (p >>= f).events s = p.events s := by
  show p.events s ++ _ = _
  rw [h, List.append_nil]

end Steps

/-! ## Steps of machines and frames -/

def create (c : Class) : RecordedRun Value :=
  noted (fun m => .creates c m.store.next) (Run.create c)

def setField (address : Address) (field : String) (value : Value) : RecordedRun Unit :=
  noted (fun _ => .stores address field value) (Run.setField address field value)

/-- Writes the line of a print. -/
def writeTexts (texts : List String) : RecordedRun Unit :=
  noted (fun _ => .prints texts) (Run.writeLine (String.intercalate " " texts))

def ofRun {α : Type} (p : RecordedRun α) : RecordedExec α :=
  ⟨Exec.ofRun p.step, fun f => p.events f.machine⟩

def body (p : RecordedExec Value) (locals : Scope) : RecordedRun Value :=
  ⟨Run.body p.step locals, fun m => p.events ⟨locals, m⟩⟩

def block (eval : Node → RecordedExec Value) : List Node → RecordedExec Value
  | [] => return .none
  | statement :: rest => do
      let _ ← eval statement
      block eval rest

def each {α β : Type} (f : α → RecordedExec β) : List α → RecordedExec (List β)
  | [] => return []
  | x :: xs => do
      let y ← f x
      let ys ← each f xs
      return y :: ys

@[simp] theorem step_setField (address : Address) (field : String) (value : Value) :
    (setField address field value).step = Run.setField address field value := rfl

@[simp] theorem step_ofRun {α : Type} (p : RecordedRun α) :
    (ofRun p).step = Exec.ofRun p.step := rfl

/-! ## Comparison -/

section Comparison

variable (call : Value → String → List Value → RecordedRun Value)

def ask (left right : Value) (method : String) : RecordedRun (Option Bool) :=
  match left with
  | .inst c _ =>
      if c.understands method 1 then do
        let answer ← call left method [right]
        return some answer.truthy
      else
        return none
  | _ => return none

def less (left right : Value) : RecordedRun Bool :=
  match left.order? right with
  | some o => return o == .lt
  | none => do
      match ← ask call left right "__lt__" with
      | some answer => return answer
      | none => silent (Order.cannotCompare .less left right)

def equal (left right : Value) : RecordedRun Bool :=
  match left.order? right with
  | some o => return o == .eq
  | none => do
      match ← ask call left right "__eq__" with
      | some answer => return answer
      | none =>
          if left.isNone && right.isNone then return true
          else silent (Order.cannotCompare .equality left right)

def lessEqual (left right : Value) : RecordedRun Bool := do
  if ← less call left right then return true else equal call left right

def greater (left right : Value) : RecordedRun Bool := do
  if ← less call left right then return false else return !(← equal call left right)

def compare (op : Relation) (left right : Value) : RecordedRun Bool :=
  match op with
  | .less => less call left right
  | .lessEqual => lessEqual call left right
  | .greater => greater call left right
  | .greaterEqual => do return !(← less call left right)
  | .equal => equal call left right
  | .notEqual => do return !(← equal call left right)

end Comparison

/-! ## The evaluator -/

mutual

def eval : Nat → Node → RecordedExec Value
  | 0, _ => silent Exec.exhausted
  | _ + 1, .constant value => return value
  | _ + 1, .none => return .none
  | _ + 1, .variable path => silent (Exec.lookup path)
  | n + 1, .arithmetic op left right => do
      let a ← eval n left
      let b ← eval n right
      silent (Exec.ofExcept (op.apply a b))
  | n + 1, .signed sign operand => do
      let a ← eval n operand
      silent (Exec.ofExcept (sign.apply a))
  | n + 1, .not operand => do
      let a ← eval n operand
      return .bool !a.truthy
  | n + 1, .logical op left right => do
      let a ← eval n left
      let b ← eval n right
      return .bool (op.apply a.truthy b.truthy)
  | n + 1, .comparison op left right => do
      let a ← eval n left
      let b ← eval n right
      let answer ← ofRun (compare (invoke n) op a b)
      return .bool answer
  | n + 1, .assign name value => do
      let a ← eval n value
      silent (Exec.bind name a)
      return a
  | n + 1, .setField path field value => do
      let a ← eval n value
      let address ← silent (Exec.lookupInstance path)
      ofRun (setField address field a)
      return a
  | n + 1, .block statements => block (eval n) statements
  | n + 1, .print args => do
      let texts ← each (fun arg => do ofRun (render n (← eval n arg))) args
      ofRun (writeTexts texts)
      return .none
  | n + 1, .call receiver method args => do
      let values ← each (eval n) args
      let target ← eval n receiver
      ofRun (invoke n target method values)
  | n + 1, .construct c args => do
      ofRun (silent (Run.notice (.creating c.name)))
      let created ← ofRun (create c)
      match c.method? "__init__" with
      | some _ =>
          let values ← each (eval n) args
          let _ ← ofRun (invoke n created "__init__" values)
          return created
      | none => return created
  | n + 1, .stringify operand => do
      let a ← eval n operand
      let text ← ofRun (render n a)
      return .str text
  | n + 1, .ret value => do
      let a ← eval n value
      silent (throw (.returned a))
  | n + 1, .ifElse condition thenBody elseBody => do
      let a ← eval n condition
      if a.truthy then
        let _ ← eval n thenBody
        return .none
      else
        match elseBody with
        | some elseBody =>
            let _ ← eval n elseBody
            return .none
        | none => return .none
  | _ + 1, .classDef c => do
      silent (Exec.bind c.name (.cls c))
      return .none

def invoke : Nat → Value → String → List Value → RecordedRun Value
  | 0, _, _, _ => silent (throw .exhausted)
  | n + 1, receiver, name, args => do
      match receiver with
      | .inst c _ =>
          let m ← silent (Run.ofExcept (Run.dispatch c name args))
          silent (Run.notice (.calling c.name name args.length))
          body (eval n m.body) (m.locals receiver args)
      | other => silent (Run.fail (.methodOnNonInstance name other.kind))

def render : Nat → Value → RecordedRun String
  | 0, _ => silent (throw .exhausted)
  | n + 1, value =>
      announced (.shows value) do
        match value with
        | .inst c _ =>
            if c.understands "__str__" 0 then
              let shown ← invoke n value "__str__" []
              render n shown
            else
              return value.text
        | other => return other.text

end

/-! ## The steps alone -/

theorem step_block {eval : Node → RecordedExec Value} {plain : Node → Exec Value}
    (h : ∀ x, (eval x).step = plain x) (statements : List Node) :
    (block eval statements).step = Exec.block plain statements := by
  induction statements with
  | nil => rfl
  | cons statement rest ih =>
      rw [block, Exec.block, step_bind, h, ih]

theorem step_each {α β : Type} {f : α → RecordedExec β} {plain : α → Exec β}
    (h : ∀ x, (f x).step = plain x) (xs : List α) : (each f xs).step = Exec.each plain xs := by
  induction xs with
  | nil => rfl
  | cons x xs ih =>
      rw [each, Exec.each, step_bind, h]
      simp only [step_bind, ih, step_pure]

section Comparison

variable {call : Value → String → List Value → RecordedRun Value} {plain : Caller Machine}
  (h : ∀ receiver name args, (call receiver name args).step = plain receiver name args)
include h

theorem step_ask (left right : Value) (method : String) :
    (ask call left right method).step = Order.ask plain left right method := by
  cases left with
  | inst c address =>
      rw [ask, Order.ask, apply_ite step, step_bind, h]
      rfl
  | _ => rfl

theorem step_less (left right : Value) :
    (less call left right).step = Order.less plain left right := by
  rw [less, Order.less]
  cases left.order? right with
  | some o => rfl
  | none =>
      rw [step_bind, step_ask h]
      refine congrArg _ (funext fun answer => ?_)
      cases answer <;> rfl

theorem step_equal (left right : Value) :
    (equal call left right).step = Order.equal plain left right := by
  rw [equal, Order.equal]
  cases left.order? right with
  | some o => rfl
  | none =>
      rw [step_bind, step_ask h]
      refine congrArg _ (funext fun answer => ?_)
      cases answer with
      | some answer => rfl
      | none => exact apply_ite step _ _ _

theorem step_lessEqual (left right : Value) :
    (lessEqual call left right).step = Order.lessEqual plain left right := by
  rw [lessEqual, Order.lessEqual, step_bind, step_less h]
  refine congrArg _ (funext fun smaller => ?_)
  cases smaller with
  | true => rfl
  | false => exact step_equal h left right

theorem step_greater (left right : Value) :
    (greater call left right).step = Order.greater plain left right := by
  rw [greater, Order.greater, step_bind, step_less h]
  refine congrArg _ (funext fun smaller => ?_)
  cases smaller with
  | true => rfl
  | false =>
      show (do return !(← equal call left right) : RecordedRun Bool).step = _
      rw [step_bind, step_equal h]
      rfl

theorem step_compare (op : Relation) (left right : Value) :
    (compare call op left right).step = Order.compare plain op left right := by
  cases op with
  | less => exact step_less h left right
  | lessEqual => exact step_lessEqual h left right
  | greater => exact step_greater h left right
  | greaterEqual =>
      rw [compare, Order.compare, step_bind, step_less h]
      rfl
  | equal => exact step_equal h left right
  | notEqual =>
      rw [compare, Order.compare, step_bind, step_equal h]
      rfl

end Comparison

/-- To a depth, the recorded evaluator has the steps of the evaluator. -/
structure ErasesTo (n : Nat) : Prop where
  eval (x : Node) : (eval n x).step = Offside.eval n x
  invoke (receiver : Value) (name : String) (args : List Value) :
    (invoke n receiver name args).step = Offside.invoke n receiver name args
  render (value : Value) : (render n value).step = Offside.render n value

namespace ErasesTo

variable {n : Nat}

theorem invoke_succ (ih : ErasesTo n) (receiver : Value) (name : String) (args : List Value) :
    (Recorded.invoke (n + 1) receiver name args).step
      = Offside.invoke (n + 1) receiver name args := by
  cases receiver with
  | inst c address =>
      rw [Recorded.invoke, Offside.invoke]
      simp only [step_bind, step_silent, body, ih.eval]
  | _ => rfl

theorem render_succ (ih : ErasesTo n) (value : Value) :
    (Recorded.render (n + 1) value).step = Offside.render (n + 1) value := by
  cases value with
  | inst c address =>
      rw [Recorded.render, Offside.render, step_announced]
      split
      · simp only [step_bind, ih.invoke, ih.render]
      · rfl
  | _ => rfl

theorem eval_succ (ih : ErasesTo n) (x : Node) :
    (Recorded.eval (n + 1) x).step = Offside.eval (n + 1) x := by
  cases x with
  | construct c args =>
      rw [Recorded.eval, Offside.eval]
      simp only [step_bind, step_ofRun]
      cases c.method? "__init__" with
      | none => rfl
      | some m =>
          simp only [step_bind, step_ofRun, step_each ih.eval, ih.invoke]
          rfl
  | ifElse condition thenBody elseBody =>
      have hbody : ∀ body, (Recorded.eval n body >>= fun _ => pure Value.none).step
          = Offside.eval n body >>= fun _ => pure Value.none := by
        intro body
        simp only [step_bind, step_pure, ih.eval]
      cases elseBody with
      | none =>
          rw [Recorded.eval, Offside.eval, step_bind, ih.eval]
          refine congrArg _ (funext fun a => ?_)
          rw [apply_ite step, hbody]
          rfl
      | some body =>
          rw [Recorded.eval, Offside.eval, step_bind, ih.eval]
          refine congrArg _ (funext fun a => ?_)
          rw [apply_ite step, hbody, hbody]
  | print args =>
      rw [Recorded.eval, Offside.eval]
      have hshown : ∀ arg, (Recorded.eval n arg >>= fun a => ofRun (Recorded.render n a)).step
          = Offside.eval n arg >>= fun a => Exec.ofRun (Offside.render n a) := by
        intro arg
        simp only [step_bind, step_ofRun, ih.eval, ih.render]
      rw [step_bind, step_each hshown]
      rfl
  | block statements =>
      rw [Recorded.eval, Offside.eval]
      exact step_block ih.eval statements
  | _ =>
      rw [Recorded.eval, Offside.eval]
      simp only [step_bind, step_silent, step_pure, step_ofRun, ih.eval, ih.invoke, ih.render,
        step_compare ih.invoke, step_each ih.eval, step_setField]

end ErasesTo

theorem erasesTo (n : Nat) : ErasesTo n := by
  -- Evaluation, calls and rendering use each other one level further down.
  induction n with
  | zero =>
      exact {
        eval := fun x => by
          rw [Recorded.eval, Offside.eval]
          rfl
        invoke := fun receiver name args => by
          rw [Recorded.invoke, Offside.invoke]
          rfl
        render := fun value => by
          rw [Recorded.render, Offside.render]
          rfl }
  | succ n ih => exact ⟨ih.eval_succ, ih.invoke_succ, ih.render_succ⟩

@[simp] theorem step_eval (n : Nat) (x : Node) : (eval n x).step = Offside.eval n x :=
  (erasesTo n).eval x

@[simp] theorem step_invoke (n : Nat) (receiver : Value) (name : String) (args : List Value) :
    (invoke n receiver name args).step = Offside.invoke n receiver name args :=
  (erasesTo n).invoke receiver name args

@[simp] theorem step_render (n : Nat) (value : Value) :
    (render n value).step = Offside.render n value :=
  (erasesTo n).render value

end Recorded

/-! ## Events of evaluations and programs -/

/-- What an evaluation to a depth does, in the order in which it happens. -/
def Node.events (depth : Nat) (x : Node) (f : Frame) : List Event :=
  (Recorded.eval depth x).events f

namespace Program

/-- Where the statements of a program start: without variables, and the run has been noted. -/
def start (p : Program) (m : Machine) : Frame :=
  ⟨.empty, { m with notices := m.notices.push (.running p.statements.length) }⟩

/-- The statements of a program, run to a depth. -/
def recorded (depth : Nat) (p : Program) : RecordedExec Value :=
  Recorded.block (Recorded.eval depth) p.statements

/-- What a program does on a machine, to a depth. -/
def events (depth : Nat) (p : Program) (m : Machine) : List Event :=
  (p.recorded depth).events (p.start m)

theorem step_recorded (depth : Nat) (p : Program) :
    (p.recorded depth).step = Exec.block (Offside.eval depth) p.statements :=
  Recorded.step_block (Recorded.step_eval depth) p.statements

/-- Behind the statements nothing but the end of the run is left to do. -/
theorem run_eq (depth : Nat) (p : Program) (m : Machine) :
    p.run depth m = match (p.recorded depth).step (p.start m) with
      | .ok _ f => (do Run.flush; return f.scope : Run Scope) f.machine
      | .error (.returned value) f =>
          (do Run.notice (.returnedEarly value.text); Run.flush; return f.scope : Run Scope) f.machine
      | .error (.fault e) f => .error e f.machine := by
  have hrun : p.run depth m
      = (do let globals ← p.statementsRun depth; Run.flush; return globals : Run Scope)
        (p.start m).machine := rfl
  have hstatements : p.statementsRun depth (p.start m).machine
      = match Exec.block (Offside.eval depth) p.statements (p.start m) with
        | .ok _ f => .ok f.scope f.machine
        | .error (.returned value) f =>
            ((do Run.notice (.returnedEarly value.text); return f.scope) : Run Scope) f.machine
        | .error (.fault e) f => .error e f.machine := rfl
  rw [hrun, step_recorded]
  rcases hblock : Exec.block (Offside.eval depth) p.statements (p.start m)
    with ⟨value, f⟩ | ⟨value | e, f⟩
  · rw [hblock] at hstatements
    exact bind_of_ok hstatements
  · rw [hblock] at hstatements
    exact bind_of_ok hstatements
  · rw [hblock] at hstatements
    exact bind_of_error hstatements

/-- The end of a run leaves the machine as it is. -/
theorem endOf_flush (globals : Scope) (m : Machine) :
    endOf ((do Run.flush; return globals : Run Scope) m) = m := by
  show endOf (EStateM.bind Run.flush _ m) = m
  unfold EStateM.bind Run.flush
  cases m.sink.flush <;> rfl

theorem store_run (depth : Nat) (p : Program) (m : Machine) :
    (endOf (p.run depth m)).store
      = (endOf ((p.recorded depth).step (p.start m))).machine.store := by
  rw [run_eq]
  rcases (p.recorded depth).step (p.start m) with ⟨value, f⟩ | ⟨value | e, f⟩
  · exact congrArg Machine.store (endOf_flush f.scope f.machine)
  · let noted : Machine :=
      { f.machine with notices := f.machine.notices.push (.returnedEarly value.text) }
    exact (congrArg Machine.store (endOf_flush f.scope noted) : _ = noted.store)
  · rfl

end Program

end Offside
