/-!
# Character sets — code points given by intervals

This file defines a set of characters as a list of closed intervals of code points and membership in
it. The properties of characters that the language asks for are sets of this kind.
-/

namespace Offside

/-- A set of characters: the members of any of its closed intervals of code points. -/
structure CharSet where
  intervals : List (Nat × Nat)

namespace CharSet

def contains (s : CharSet) (c : Char) : Bool :=
  s.intervals.any fun i => i.1 ≤ c.toNat && c.toNat ≤ i.2

theorem contains_eq_true_iff {s : CharSet} {c : Char} :
    s.contains c = true ↔ ∃ i ∈ s.intervals, i.1 ≤ c.toNat ∧ c.toNat ≤ i.2 := by
  simp [contains]

end CharSet

end Offside
