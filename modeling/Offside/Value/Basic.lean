import Offside.Program.Syntax

/-!
# Values — kinds, truth and plain text

This file defines what every value has: its kind, its truth, and the text by which it is shown where no
method of its class is asked.
-/

namespace Offside

/-! ## Kinds -/

inductive ValueKind where
  | none | int | str | bool | cls | inst
deriving DecidableEq, Repr

def ValueKind.text : ValueKind → String
  | none => "NoneType"
  | int => "int"
  | str => "str"
  | bool => "bool"
  | cls => "class"
  | inst => "instance"

/-- How an address is written: the block in hexadecimal digits after `0x`. -/
def Address.text (address : Address) : String :=
  "0x" ++ String.ofList (Nat.toDigits 16 address.block)

namespace Value

def kind : Value → ValueKind
  | none => .none
  | int _ => .int
  | str _ => .str
  | bool _ => .bool
  | cls _ => .cls
  | inst .. => .inst

/-! ## Views -/

def int? : Value → Option Int64
  | int n => some n
  | _ => Option.none

def str? : Value → Option String
  | str s => some s
  | _ => Option.none

def bool? : Value → Option Bool
  | bool b => some b
  | _ => Option.none

def class? : Value → Option Class
  | inst c _ => some c
  | _ => Option.none

def isNone : Value → Bool
  | none => true
  | _ => false

/-- Whether a value counts as true. Neither classes nor instances do. -/
def truthy : Value → Bool
  | none => false
  | int n => n != 0
  | str s => s != ""
  | bool b => b
  | cls _ => false
  | inst .. => false

/-- The text of a value that involves no method: an instance shows its address. -/
def text : Value → String
  | none => "None"
  | int n => toString n.toInt
  | str s => s
  | bool true => "True"
  | bool false => "False"
  | cls c => "Class name " ++ c.name
  | inst _ address => address.text

end Value

end Offside
