/-!
# Positions — where something stands in a text
-/

namespace Offside

/-- A place in a source text. Lines and columns count from one, and a column counts bytes. -/
structure Position where
  line : Nat
  column : Nat
deriving DecidableEq, Repr

namespace Position

def text (p : Position) : String :=
  s!"line {p.line}, column {p.column}"

end Position

end Offside
