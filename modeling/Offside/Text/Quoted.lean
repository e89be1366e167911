import Offside.Text.Visible

/-!
# Quoted text — how a report shows a string

This file defines the form in which messages and the journal show a string: between double quotes,
with a short escape for the usual control characters and a code point in braces for every other
character that would not show.
-/

namespace Offside.Text

/-- A code point in braces, in lower-case hexadecimal without leading zeros. -/
def codePointEscape (c : Char) : List Char :=
  ['\\', 'u', '\x7b'] ++ Nat.toDigits 16 c.toNat ++ ['\x7d']

def escapeChar (c : Char) : List Char :=
  match c with
  | '"' => ['\\', '"']
  | '\\' => ['\\', '\\']
  | '\n' => ['\\', 'n']
  | '\t' => ['\\', 't']
  | '\r' => ['\\', 'r']
  | '\x00' => ['\\', '0']
  | _ => if isVisible c then [c] else codePointEscape c

/-- A string as a report shows it. -/
def quoted (s : String) : String :=
  String.ofList ('"' :: s.toList.flatMap escapeChar ++ ['"'])

example : quoted "a\n\"" = "\"a\\n\\\"\"" := by
  decide +kernel

end Offside.Text
