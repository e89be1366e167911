import Offside.Value.RuntimeError
import Offside.Value.Scope

/-!
# Store — the fields of all instances

This file defines the store, in which every instance has its fields under an address, and the look-up of
dotted paths through it. A look-up that fails names the shortest part of the path that failed.

Which block of memory an instance gets is the environment's choice. It is a parameter of the store: a
supply of blocks, one for each instance in the order in which they are made. Nothing is asked of a supply,
so a block can come again, as it does where the memory of an instance that is out of reach is used again.
-/

namespace Offside

/-- The fields of the instances made so far, by their numbers. Nothing is ever taken away. The supply
gives the block of each instance. -/
structure Store where
  supply : Nat → Nat
  cells : Array Scope

namespace Store

/-- A store without instances. -/
def empty (supply : Nat → Nat) : Store :=
  ⟨supply, #[]⟩

/-- The address of the instance of a number. -/
def address (s : Store) (number : Nat) : Address :=
  ⟨number, s.supply number⟩

/-- The place of an address in the row of cells. -/
def slot? (s : Store) (address : Address) : Option Nat :=
  if address = s.address address.number then some address.number else none

/-- The fields under an address. -/
def fields (s : Store) (address : Address) : Scope :=
  match s.slot? address with
  | some slot => s.cells.getD slot .empty
  | none => .empty

/-- The address of the next instance. -/
def next (s : Store) : Address :=
  s.address s.cells.size

/-- Makes room for an instance without fields. -/
def allocate (s : Store) : Store :=
  { s with cells := s.cells.push .empty }

def setField (s : Store) (address : Address) (field : String) (value : Value) : Store :=
  match s.slot? address with
  | some slot => { s with cells := s.cells.modify slot (·.insert field value) }
  | none => s

/-- An address of an instance that has been made. -/
structure Holds (s : Store) (address : Address) : Prop where
  number : address.number < s.cells.size
  block : address.block = s.supply address.number

theorem Holds.slot? {s : Store} {address : Address} (h : s.Holds address) :
    s.slot? address = some address.number :=
  if_pos (by rw [Store.address, ← h.block])

/-! ## What an operation does to the fields -/

@[simp] theorem not_holds_empty (supply : Nat → Nat) (address : Address) :
    ¬(empty supply).Holds address :=
  fun h => Nat.not_lt_zero _ h.number

/-- The next address is fresh, whatever its block has been before. -/
@[simp] theorem not_holds_next (s : Store) : ¬s.Holds s.next :=
  fun h => Nat.lt_irrefl _ h.number

@[simp] theorem supply_allocate (s : Store) : s.allocate.supply = s.supply := rfl

@[simp] theorem size_allocate (s : Store) : s.allocate.cells.size = s.cells.size + 1 := by
  simp [allocate]

@[simp] theorem supply_setField (s : Store) (address : Address) (field : String) (value : Value) :
    (s.setField address field value).supply = s.supply := by
  unfold setField
  split <;> rfl

@[simp] theorem size_setField (s : Store) (address : Address) (field : String) (value : Value) :
    (s.setField address field value).cells.size = s.cells.size := by
  unfold setField
  split <;> simp

theorem holds_allocate {s : Store} {address : Address} :
    s.allocate.Holds address ↔ s.Holds address ∨ address = s.next := by
  constructor
  · rintro ⟨hnumber, hblock⟩
    rw [size_allocate] at hnumber
    rw [supply_allocate] at hblock
    rcases Nat.lt_succ_iff_lt_or_eq.mp hnumber with hlt | heq
    · exact .inl ⟨hlt, hblock⟩
    · rw [heq] at hblock
      cases address
      cases heq
      cases hblock
      exact .inr rfl
  · rintro (h | rfl)
    · exact ⟨by simpa using Nat.lt_succ_of_lt h.number, h.block⟩
    · exact ⟨by simp [next, Store.address], rfl⟩

@[simp] theorem holds_setField {s : Store} {address other : Address} {field : String} {value : Value} :
    (s.setField address field value).Holds other ↔ s.Holds other := by
  constructor
  · rintro ⟨hnumber, hblock⟩
    exact ⟨by simpa using hnumber, by simpa using hblock⟩
  · rintro ⟨hnumber, hblock⟩
    exact ⟨by simpa using hnumber, by simpa using hblock⟩

@[simp] theorem slot?_allocate (s : Store) (address : Address) :
    s.allocate.slot? address = s.slot? address := rfl

@[simp] theorem slot?_setField (s : Store) (address other : Address) (field : String) (value : Value) :
    (s.setField address field value).slot? other = s.slot? other := by
  unfold setField
  split <;> rfl

/-- Two addresses do not share a place. -/
theorem slot?_inj {s : Store} {address other : Address} {slot : Nat} (h : s.slot? address = some slot)
    (h' : s.slot? other = some slot) : address = other := by
  simp only [slot?, Option.ite_none_right_eq_some, Option.some.injEq] at h h'
  rw [h.1, h'.1, h.2, h'.2]

/-- Nothing is stored under an address that no instance has. -/
theorem fields_eq_empty {s : Store} {address : Address} (h : ¬s.Holds address) :
    s.fields address = .empty := by
  unfold fields
  split
  next slot hslot =>
    simp only [slot?, Option.ite_none_right_eq_some, Option.some.injEq] at hslot
    have hsize : s.cells.size ≤ slot := by
      rw [← hslot.2]
      exact Nat.le_of_not_lt fun hlt => h ⟨hlt, congrArg Address.block hslot.1⟩
    rw [Array.getD_eq_getD_getElem?, Array.getElem?_eq_none hsize]
    rfl
  next => rfl

@[simp] theorem fields_allocate (s : Store) (address : Address) :
    s.allocate.fields address = s.fields address := by
  simp only [fields, slot?_allocate]
  split
  next slot _ =>
    simp only [allocate, Array.getD_eq_getD_getElem?, Array.getElem?_push]
    split
    next h => simp [h]
    next h => rfl
  next => rfl

theorem fields_setField_self (s : Store) {address : Address} (h : s.Holds address) (field : String)
    (value : Value) :
    (s.setField address field value).fields address
      = (s.fields address).insert field value := by
  simp only [fields, slot?_setField, h.slot?]
  simp [setField, h.slot?, h.number, Array.getElem_modify]

theorem fields_setField_of_ne (s : Store) {address other : Address} (h : other ≠ address)
    (field : String) (value : Value) :
    (s.setField address field value).fields other = s.fields other := by
  simp only [fields, slot?_setField]
  split
  next slot hother =>
    unfold setField
    split
    next slot' haddress =>
      have hne : slot' ≠ slot := by
        rintro rfl
        exact h (slot?_inj hother haddress)
      simp [Array.getElem?_modify, hne]
    next => rfl
  next => rfl

/-- A write leaves every other field as it is, of the same instance and of the others. -/
theorem get?_setField_of_ne (s : Store) {address other : Address} {field name : String}
    (h : (other, name) ≠ (address, field)) (value : Value) :
    ((s.setField address field value).fields other).get? name = (s.fields other).get? name := by
  by_cases heq : other = address
  · subst heq
    have hname : name ≠ field := fun hname => h (congrArg _ hname)
    by_cases hin : s.Holds other
    · rw [fields_setField_self s hin, Scope.get?_insert_of_ne _ hname]
    · -- The write has no effect.
      rw [fields_eq_empty hin, fields_eq_empty (mt holds_setField.mp hin)]
  · rw [fields_setField_of_ne s heq]

end Store

/-- Two instances differ where the supply gives both the same block. -/
example :
    let s := Store.empty fun _ => 0x55
    s.next ≠ s.allocate.next ∧ s.next.text = "0x55" ∧ s.allocate.next.text = "0x55" := by
  decide

/-! ## Paths -/

/-- A path as it is written. -/
def pathText (path : List String) : String :=
  String.intercalate "." path

namespace Scope

/-- Goes on from a value along fields, where `walked` led to the value. -/
def follow (store : Store) (walked : List String) (value : Value) :
    List String → Except RuntimeError Value
  | [] => .ok value
  | field :: rest =>
      match value with
      | .inst _ address =>
          match (store.fields address).get? field with
          | some next => follow store (walked ++ [field]) next rest
          | none => .error (.undefinedVariable (pathText (walked ++ [field])))
      | other => .error (.notAnInstance (pathText walked) other.kind)

/-- The value of a path: its first name in the scope, and every other in the fields of the instance
before it. -/
def lookup (s : Scope) (store : Store) : List String → Except RuntimeError Value
  | [] => .error (.undefinedVariable "")
  | first :: rest =>
      match s.get? first with
      | some value => follow store [first] value rest
      | none => .error (.undefinedVariable first)

/-- The address of the instance at a path. -/
def lookupInstance (s : Scope) (store : Store) (path : List String) :
    Except RuntimeError Address := do
  match ← s.lookup store path with
  | .inst _ address => return address
  | other => throw (.notAnInstance (pathText path) other.kind)

end Scope

end Offside
