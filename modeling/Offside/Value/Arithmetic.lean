import Offside.Value.RuntimeError

/-!
# Arithmetic — what the operators do to values

This file defines the operators on values. Integers are words of 64 bits: sums, differences and products
wrap around, and a quotient is cut off toward zero. Whether operands have the right kinds is asked before
whether a divisor is zero.
-/

namespace Offside

namespace Arithmetic

def onIntegers (op : Arithmetic) (a b : Int64) : Except RuntimeError Int64 :=
  match op with
  | add => .ok (a + b)
  | sub => .ok (a - b)
  | mul => .ok (a * b)
  | div => if b = 0 then .error .divisionByZero else .ok (a / b)

def apply (op : Arithmetic) : Value → Value → Except RuntimeError Value
  | .int a, .int b => (op.onIntegers a b).map .int
  | .str s, .str t =>
      match op with
      | add => .ok (.str (s ++ t))
      | _ => .error (.unsupportedOperands op .str .str)
  | left, right => .error (.unsupportedOperands op left.kind right.kind)

end Arithmetic

def Sign.apply (sign : Sign) : Value → Except RuntimeError Value
  | .int n =>
      match sign with
      | plus => .ok (.int n)
      | minus => .ok (.int (-n))
  | operand => .error (.unsupportedOperand sign operand.kind)

def Connective.apply (op : Connective) (a b : Bool) : Bool :=
  match op with
  | and => a && b
  | or => a || b

end Offside
