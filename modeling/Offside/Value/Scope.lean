import Offside.Value.Basic

/-!
# Scopes — what names are bound to

This file defines scopes: the global variables, the variables of a method call, and the fields of an
instance. A scope keeps its bindings sorted by name (by code points), one for each name, so that two
scopes with the same bindings are equal and a listing needs no further rule.
-/

namespace Offside

/-- Bindings of names to values, sorted by name. -/
structure Scope where
  bindings : List (String × Value)
  sorted : bindings.Pairwise fun a b => a.1 < b.1

namespace Scope

def empty : Scope :=
  ⟨[], .nil⟩

/-! ## Bindings in order -/

/-- Puts a binding at its place, instead of the one of that name if there is one. -/
def insertSorted (name : String) (value : Value) : List (String × Value) → List (String × Value)
  | [] => [(name, value)]
  | b :: bs =>
      if name < b.1 then (name, value) :: b :: bs
      else if name = b.1 then (name, value) :: bs
      else b :: insertSorted name value bs

theorem mem_insertSorted {name : String} {value : Value} {b : String × Value}
    {bs : List (String × Value)} (h : b ∈ insertSorted name value bs) :
    b = (name, value) ∨ b ∈ bs := by
  induction bs with
  | nil => simpa [insertSorted] using h
  | cons c cs ih =>
      unfold insertSorted at h
      split at h
      · simpa using h
      split at h
      · rcases List.mem_cons.mp h with h | h
        · exact .inl h
        · exact .inr (List.mem_cons_of_mem _ h)
      · rcases List.mem_cons.mp h with h | h
        · exact .inr (h ▸ List.mem_cons_self)
        · exact (ih h).imp_right (List.mem_cons_of_mem _)

theorem lt_of_not_lt_of_ne {a b : String} (h : ¬a < b) (hne : a ≠ b) : b < a :=
  Std.lt_of_le_of_ne (String.not_lt.mp h) hne.symm

theorem sorted_insertSorted (name : String) (value : Value) {bs : List (String × Value)}
    (h : bs.Pairwise fun a b => a.1 < b.1) :
    (insertSorted name value bs).Pairwise fun a b => a.1 < b.1 := by
  induction h with
  | nil => exact List.pairwise_singleton _ _
  | @cons c cs hhead htail ih =>
      unfold insertSorted
      split
      next hlt =>
        refine .cons (fun b hb => ?_) (.cons hhead htail)
        rcases List.mem_cons.mp hb with rfl | hb
        · exact hlt
        · exact String.lt_trans hlt (hhead b hb)
      next hlt =>
        split
        next heq => exact .cons (fun b hb => heq ▸ hhead b hb) htail
        next hne =>
          refine .cons (fun b hb => ?_) ih
          rcases mem_insertSorted hb with rfl | hb
          · exact lt_of_not_lt_of_ne hlt hne
          · exact hhead b hb

/-! ## Operations -/

/-- Binds a name, instead of what it was bound to. -/
def insert (s : Scope) (name : String) (value : Value) : Scope :=
  ⟨insertSorted name value s.bindings, sorted_insertSorted name value s.sorted⟩

def get? (s : Scope) (name : String) : Option Value :=
  (s.bindings.find? (·.1 == name)).map (·.2)

def contains (s : Scope) (name : String) : Bool :=
  s.bindings.any (·.1 == name)

def names (s : Scope) : List String :=
  s.bindings.map (·.1)

/-- One line for each binding, in the order of the names. -/
def text (s : Scope) : String :=
  String.join (s.bindings.map fun b => b.1 ++ ": " ++ b.2.text ++ "\n")

/-! ## What an operation does to a look-up -/

@[simp] theorem get?_empty (name : String) : empty.get? name = none := rfl

theorem find?_insertSorted_self (name : String) (value : Value) (bs : List (String × Value)) :
    (insertSorted name value bs).find? (·.1 == name) = some (name, value) := by
  induction bs with
  | nil => simp [insertSorted]
  | cons b bs ih =>
      unfold insertSorted
      split
      · simp
      split
      · simp
      next hne => simp [Ne.symm hne, ih]

theorem find?_insertSorted_of_ne {name other : String} (h : other ≠ name) (value : Value)
    (bs : List (String × Value)) :
    (insertSorted name value bs).find? (·.1 == other) = bs.find? (·.1 == other) := by
  induction bs with
  | nil => simp [insertSorted, h.symm]
  | cons b bs ih =>
      unfold insertSorted
      split
      · simp [h.symm]
      split
      next heq => simp [← heq, h.symm]
      next hne => simp [List.find?_cons, ih]

@[simp] theorem get?_insert_self (s : Scope) (name : String) (value : Value) :
    (s.insert name value).get? name = some value := by
  simp [get?, insert, find?_insertSorted_self]

theorem get?_insert_of_ne (s : Scope) {name other : String} (h : other ≠ name) (value : Value) :
    (s.insert name value).get? other = s.get? other := by
  simp [get?, insert, find?_insertSorted_of_ne h]

theorem contains_eq (s : Scope) (name : String) : s.contains name = (s.get? name).isSome := by
  simp [contains, get?, List.isSome_find?]

end Scope

end Offside
