/-!
# Source lines — cutting a text at its line ends

This file defines the lines of a text and the measure of a piece of text in bytes. A line ends with a
line feed, or with a carriage return directly followed by one; a carriage return elsewhere belongs to
its line, and a text that ends with a line end has no empty last line.
-/

namespace Offside.Text

/-! ## Lines -/

def lines : List Char → List (List Char)
  | [] => []
  | '\n' :: cs => [] :: lines cs
  | '\r' :: '\n' :: cs => [] :: lines cs
  | c :: cs =>
      match lines cs with
      | [] => [[c]]
      | l :: ls => (c :: l) :: ls

@[simp] theorem lines_nil : lines [] = [] := rfl

@[simp] theorem lines_newline (cs : List Char) : lines ('\n' :: cs) = [] :: lines cs := rfl

@[simp] theorem lines_return_newline (cs : List Char) :
    lines ('\r' :: '\n' :: cs) = [] :: lines cs := rfl

/-! ## Bytes -/

/-- The length of a text in bytes of UTF-8. -/
def byteSize : List Char → Nat
  | [] => 0
  | c :: cs => c.utf8Size + byteSize cs

@[simp] theorem byteSize_nil : byteSize [] = 0 := rfl

@[simp] theorem byteSize_cons (c : Char) (cs : List Char) :
    byteSize (c :: cs) = c.utf8Size + byteSize cs := rfl

@[simp] theorem byteSize_append (cs ds : List Char) :
    byteSize (cs ++ ds) = byteSize cs + byteSize ds := by
  induction cs with
  | nil => simp
  | cons c cs ih => simp [ih, Nat.add_assoc]

/-- What remains of a text after its first `n` bytes. -/
def dropBytes : Nat → List Char → List Char
  | _, [] => []
  | 0, cs => cs
  | n + 1, c :: cs => dropBytes (n + 1 - c.utf8Size) cs

/-- The first `n` bytes of a text. -/
def takeBytes : Nat → List Char → List Char
  | _, [] => []
  | 0, _ => []
  | n + 1, c :: cs => c :: takeBytes (n + 1 - c.utf8Size) cs

/-- The part of a text between two byte positions. -/
def slice (start stop : Nat) (cs : List Char) : List Char :=
  takeBytes (stop - start) (dropBytes start cs)

@[simp] theorem dropBytes_byteSize_append (cs ds : List Char) :
    dropBytes (byteSize cs) (cs ++ ds) = ds := by
  induction cs with
  | nil => cases ds <;> rfl
  | cons c cs ih =>
      obtain ⟨n, hn⟩ := Nat.exists_eq_add_of_lt (Char.utf8Size_pos c)
      have hsucc : byteSize (c :: cs) = n + byteSize cs + 1 := by simp; omega
      have hrest : n + byteSize cs + 1 - c.utf8Size = byteSize cs := by omega
      rw [List.cons_append, hsucc, dropBytes, hrest, ih]

@[simp] theorem takeBytes_byteSize_append (cs ds : List Char) :
    takeBytes (byteSize cs) (cs ++ ds) = cs := by
  induction cs with
  | nil => cases ds <;> rfl
  | cons c cs ih =>
      obtain ⟨n, hn⟩ := Nat.exists_eq_add_of_lt (Char.utf8Size_pos c)
      have hsucc : byteSize (c :: cs) = n + byteSize cs + 1 := by simp; omega
      have hrest : n + byteSize cs + 1 - c.utf8Size = byteSize cs := by omega
      rw [List.cons_append, hsucc, takeBytes, hrest, ih]

end Offside.Text
