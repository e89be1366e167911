import Offside.Program.Equality
import Offside.Value.Basic

/-!
# Handles — values that are kept in cells

This file defines when two handles share a cell. Copying a handle keeps its cell; making a value anew
takes a new one. `None` needs no cell, and all its handles are alike.
-/

namespace Offside

structure Handle where
  cell : Nat
  value : Value

namespace Handle

/-- Whether two handles are the same cell, or both `None`. -/
def shares (a b : Handle) : Bool :=
  if a.value.isNone || b.value.isNone then a.value.isNone && b.value.isNone else a.cell == b.cell

end Handle

end Offside
