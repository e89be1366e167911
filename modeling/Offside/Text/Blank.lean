import Offside.Text.CharSet

/-!
# Blank characters — what separates tokens

This file lists the characters with the Unicode property `White_Space`. Only the space U+0020 counts
as indentation; every blank may stand between two tokens.
-/

namespace Offside.Text

/-- The blanks outside ASCII. -/
def wideBlanks : CharSet where
  intervals :=
    [(0x85, 0x85), (0xA0, 0xA0), (0x1680, 0x1680), (0x2000, 0x200A), (0x2028, 0x2029),
     (0x202F, 0x202F), (0x205F, 0x205F), (0x3000, 0x3000)]

/-- A blank is a character that separates tokens and has no other meaning. -/
def isBlank (c : Char) : Bool :=
  if c.toNat < 128 then c = ' ' || (9 ≤ c.toNat && c.toNat ≤ 13) else wideBlanks.contains c

end Offside.Text
