import Offside.Source.LexError
import Offside.Token.Kind
import Offside.Value.RuntimeError

/-!
# Parse errors — texts that are no program
-/

namespace Offside

/-- What the grammar asks for at some place. -/
inductive Expected where
  | expression
  | identifier
  | kind (k : Kind)
deriving DecidableEq, Repr

def Expected.text : Expected → String
  | expression => "expression"
  | identifier => "identifier"
  | kind k => k.spelling

inductive ParseError where
  | lexical (e : LexError)
  | unexpectedToken (expected : Expected) (found : Token)
  | undeclaredBase (name : String) (line : Nat)
  | duplicateClass (name : String) (line : Nat)
  | invalidClass (cause : RuntimeError) (line : Nat)
  | notCallable (name : String) (line : Nat)
  | stringifyArity (found line : Nat)
deriving DecidableEq, Repr

namespace ParseError

def message : ParseError → String
  | lexical e => e.message
  | unexpectedToken expected found =>
      s!"Expected {expected.text}, got {found.kind.spelling} at {found.place.text}"
  | undeclaredBase name line => s!"Base class '{name}' is not declared (line {line})"
  | duplicateClass name line => s!"Class '{name}' is already declared (line {line})"
  | invalidClass cause line => s!"{cause.message} (line {line})"
  | notCallable name line =>
      s!"'{name}' is not a class; free functions are not supported (line {line})"
  | stringifyArity found line =>
      s!"str() takes exactly one argument, got {found} (line {line})"

end ParseError

end Offside
