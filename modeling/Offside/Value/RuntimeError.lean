import Offside.Value.Basic

/-!
# Runtime errors — how the evaluation of a statement can fail
-/

namespace Offside

/-- The two questions from which all comparisons are answered. -/
inductive Basis where
  | less | equality
deriving DecidableEq, Repr

def Basis.text : Basis → String
  | less => "less"
  | equality => "equality"

inductive RuntimeError where
  | undefinedVariable (path : String)
  | notAnInstance (path : String) (found : ValueKind)
  | unsupportedOperands (op : Arithmetic) (left right : ValueKind)
  | unsupportedOperand (sign : Sign) (found : ValueKind)
  | divisionByZero
  | undefinedMethod (className method : String)
  | arityMismatch (className method : String) (expected found : Nat)
  | methodOnNonInstance (method : String) (found : ValueKind)
  | cannotCompare (basis : Basis) (left right : ValueKind)
  | duplicateMethod (className method : String)
  | output (reason : String)
deriving DecidableEq, Repr

namespace RuntimeError

def message : RuntimeError → String
  | undefinedVariable path => s!"Undefined variable '{path}'"
  | notAnInstance path found => s!"'{path}' is not a class instance, got {found.text}"
  | unsupportedOperands op left right =>
      s!"Operation '{op.text}' is not supported for types {left.text} and {right.text}"
  | unsupportedOperand sign found =>
      s!"Operation '{sign.text}' is not supported for type {found.text}"
  | divisionByZero => "Division by zero"
  | undefinedMethod className method => s!"Class {className} has no method '{method}'"
  | arityMismatch className method expected found =>
      s!"Method {className}.{method} expected {expected} arguments, got {found}"
  | methodOnNonInstance method found =>
      s!"Cannot call method '{method}' on type {found.text}"
  | cannotCompare basis left right =>
      s!"Cannot compare {left.text} and {right.text} for {basis.text}"
  | duplicateMethod className method => s!"Class {className} has duplicate method '{method}'"
  | output reason => s!"Failed to write output: {reason}"

end RuntimeError

end Offside
