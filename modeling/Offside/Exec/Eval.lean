import Offside.Exec.Order
import Offside.Value.Arithmetic

/-!
# Evaluation — running statements and methods

This file defines what a statement or an expression does. Evaluation changes a scope and a machine; it
ends with a value, with an early return, or with a fault. The number that `eval`, `invoke` and `render`
take bounds how deep they nest, and a program that stays within the bound does not notice it.
-/

namespace Offside

/-- What a statement is evaluated in: the variables around it and the machine. -/
structure Frame where
  scope : Scope
  machine : Machine

/-- How an evaluation ends before its end. A return carries its value to the method around it. -/
inductive Exit where
  | returned (value : Value)
  | fault (f : Fault)

/-- Steps that change a frame. -/
abbrev Exec := EStateM Exit Frame

namespace Exec

def exhausted {α : Type} : Exec α :=
  throw (.fault .exhausted)

/-- A step of the machine within a frame. -/
def ofRun {α : Type} (step : Run α) : Exec α := fun f =>
  match step f.machine with
  | .ok x m => .ok x { f with machine := m }
  | .error e m => .error (.fault e) { f with machine := m }

def ofExcept {α : Type} (x : Except RuntimeError α) : Exec α :=
  ofRun (.ofExcept x)

/-- The value of a path in this frame. -/
def lookup (path : List String) : Exec Value := fun f =>
  ofExcept (f.scope.lookup f.machine.store path) f

/-- The address of the instance at a path in this frame. -/
def lookupInstance (path : List String) : Exec Address := fun f =>
  ofExcept (f.scope.lookupInstance f.machine.store path) f

def bind (name : String) (value : Value) : Exec Unit := fun f =>
  .ok () { f with scope := f.scope.insert name value }

/-- Runs statements one after the other. -/
def block (eval : Node → Exec Value) : List Node → Exec Value
  | [] => return .none
  | statement :: rest => do
      let _ ← eval statement
      block eval rest

/-- Runs `f` on each item in turn and gathers what it gives. -/
def each {α β : Type} (f : α → Exec β) : List α → Exec (List β)
  | [] => return []
  | x :: xs => do
      let y ← f x
      let ys ← each f xs
      return y :: ys

end Exec

/-! ## Methods -/

/-- The variables of a method body: the receiver, and each parameter with its argument. Of parameters
with one name the last counts. -/
def Method.locals (m : Method) (receiver : Value) (args : List Value) : Scope :=
  (m.explicitParams.zip args).foldl (fun scope b => scope.insert b.1 b.2)
    (Scope.empty.insert receiverName receiver)

namespace Run

/-- Runs a method body in a scope of its own. A body that ends without a return gives `None`. -/
def body (step : Exec Value) (locals : Scope) : Run Value := fun m =>
  match step ⟨locals, m⟩ with
  | .ok _ f => .ok .none f.machine
  | .error (.returned value) f => .ok value f.machine
  | .error (.fault e) f => .error e f.machine

/-- The method that a call runs. Only then is the number of arguments looked at. -/
def dispatch (c : Class) (name : String) (args : List Value) : Except RuntimeError Method :=
  match c.method? name with
  | none => .error (.undefinedMethod c.name name)
  | some m =>
      if m.arity = args.length then .ok m
      else .error (.arityMismatch c.name name m.arity args.length)

end Run

/-! ## The evaluator -/

mutual

/-- Evaluates a statement or an expression. -/
def eval : Nat → Node → Exec Value
  | 0, _ => .exhausted
  | _ + 1, .constant value => return value
  | _ + 1, .none => return .none
  | _ + 1, .variable path => .lookup path
  | n + 1, .arithmetic op left right => do
      let a ← eval n left
      let b ← eval n right
      .ofExcept (op.apply a b)
  | n + 1, .signed sign operand => do
      let a ← eval n operand
      .ofExcept (sign.apply a)
  | n + 1, .not operand => do
      let a ← eval n operand
      return .bool !a.truthy
  | n + 1, .logical op left right => do
      -- Both sides are evaluated, whatever the left one gives.
      let a ← eval n left
      let b ← eval n right
      return .bool (op.apply a.truthy b.truthy)
  | n + 1, .comparison op left right => do
      let a ← eval n left
      let b ← eval n right
      let answer ← .ofRun (Order.compare (invoke n) op a b)
      return .bool answer
  | n + 1, .assign name value => do
      let a ← eval n value
      .bind name a
      return a
  | n + 1, .setField path field value => do
      -- The value comes first, and may change what the path leads to.
      let a ← eval n value
      let address ← .lookupInstance path
      .ofRun (.setField address field a)
      return a
  | n + 1, .block body => .block (eval n) body
  | n + 1, .print args => do
      let texts ← .each (fun arg => do .ofRun (render n (← eval n arg))) args
      .ofRun (.writeLine (String.intercalate " " texts))
      return .none
  | n + 1, .call receiver method args => do
      -- The arguments come before the receiver.
      let values ← .each (eval n) args
      let target ← eval n receiver
      .ofRun (invoke n target method values)
  | n + 1, .construct c args => do
      .ofRun (.notice (.creating c.name))
      let created ← .ofRun (.create c)
      match c.method? "__init__" with
      | some _ =>
          let values ← .each (eval n) args
          let _ ← .ofRun (invoke n created "__init__" values)
          return created
      -- Without an initializer the arguments are not evaluated.
      | none => return created
  | n + 1, .stringify operand => do
      let a ← eval n operand
      let text ← .ofRun (render n a)
      return .str text
  | n + 1, .ret value => do
      let a ← eval n value
      throw (.returned a)
  | n + 1, .ifElse condition thenBody elseBody => do
      let a ← eval n condition
      if a.truthy then
        let _ ← eval n thenBody
        return .none
      else
        match elseBody with
        | some body =>
            let _ ← eval n body
            return .none
        | none => return .none
  | _ + 1, .classDef c => do
      .bind c.name (.cls c)
      return .none

/-- Calls a method of a value. -/
def invoke : Nat → Value → String → List Value → Run Value
  | 0, _, _, _ => throw .exhausted
  | n + 1, receiver, name, args => do
      match receiver with
      | .inst c _ =>
          let m ← .ofExcept (Run.dispatch c name args)
          .notice (.calling c.name name args.length)
          .body (eval n m.body) (m.locals receiver args)
      | other => .fail (.methodOnNonInstance name other.kind)

/-- The text of a value as it is printed. An instance whose class has a `__str__` without arguments is
shown as what that gives. -/
def render : Nat → Value → Run String
  | 0, _ => throw .exhausted
  | n + 1, value => do
      match value with
      | .inst c _ =>
          if c.understands "__str__" 0 then
            -- What the method gives may be an instance in its turn.
            let shown ← invoke n value "__str__" []
            render n shown
          else
            return value.text
      | other => return other.text

end

end Offside
