import Offside.Source.Position

/-!
# Lexical errors — texts that are no sequence of tokens

A lexical error concerns a whole line (its indentation) or a place in a line at which no token can be
read.
-/

namespace Offside

inductive LexError where
  | oddIndentation (spaces line : Nat)
  | unexpectedCharacter (character : Char) (place : Position)
  | invalidInteger (digits : String) (place : Position)
  | unterminatedString (place : Position)
deriving DecidableEq, Repr

namespace LexError

def message : LexError → String
  | oddIndentation spaces line => s!"Odd number of leading spaces ({spaces}) at line {line}"
  | unexpectedCharacter character place => s!"Unexpected character '{character}' at {place.text}"
  | invalidInteger digits place => s!"Invalid integer literal '{digits}' at {place.text}"
  | unterminatedString place => s!"Unterminated string literal at {place.text}"

end LexError

end Offside
