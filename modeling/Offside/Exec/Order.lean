import Offside.Exec.Machine
import Offside.Program.Class

/-!
# Order — how values compare

This file defines the six comparisons. Two of them look at their operands, `less` and `equal`, and the
others are made of these, so that a class gets all six by defining `__lt__` and `__eq__`. How a method
is called is a parameter, over whatever state calls may change.
-/

namespace Offside

/-- A way to call a method of a value. -/
abbrev Caller (σ : Type) := Value → String → List Value → EStateM Fault σ Value

/-- The order of two values of one primitive kind: integers by size, strings by code points, and false
before true. -/
def Value.order? : Value → Value → Option Ordering
  | .bool a, .bool b => some (compare a b)
  | .int a, .int b => some (compare a b)
  | .str a, .str b => some (compare a b)
  | _, _ => Option.none

namespace Order

variable {σ : Type} (call : Caller σ)

/-- What the left operand's method for the question answers, if its class has one of one argument. -/
def ask (left right : Value) (method : String) : EStateM Fault σ (Option Bool) :=
  match left with
  | .inst c _ =>
      if c.understands method 1 then do
        let answer ← call left method [right]
        return some answer.truthy
      else
        return none
  | _ => return none

def cannotCompare (basis : Basis) (left right : Value) : EStateM Fault σ Bool :=
  throw (.error (.cannotCompare basis left.kind right.kind))

def less (left right : Value) : EStateM Fault σ Bool :=
  match left.order? right with
  | some o => return o == .lt
  | none => do
      match ← ask call left right "__lt__" with
      | some answer => return answer
      | none => cannotCompare .less left right

def equal (left right : Value) : EStateM Fault σ Bool :=
  match left.order? right with
  | some o => return o == .eq
  | none => do
      match ← ask call left right "__eq__" with
      | some answer => return answer
      | none =>
          if left.isNone && right.isNone then return true
          else cannotCompare .equality left right

/-- Equality is asked only where the left operand is not less. -/
def lessEqual (left right : Value) : EStateM Fault σ Bool := do
  if ← less call left right then return true else equal call left right

/-- A left operand that is neither less nor equal is greater. -/
def greater (left right : Value) : EStateM Fault σ Bool := do
  if ← less call left right then return false else return !(← equal call left right)

def compare (op : Relation) (left right : Value) : EStateM Fault σ Bool :=
  match op with
  | .less => less call left right
  | .lessEqual => lessEqual call left right
  | .greater => greater call left right
  | .greaterEqual => do return !(← less call left right)
  | .equal => equal call left right
  | .notEqual => do return !(← equal call left right)

end Order

end Offside
