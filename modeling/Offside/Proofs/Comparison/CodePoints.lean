import Mathlib.Data.List.Lex
import Mathlib.Order.Monotone.Basic
import Mathlib.Data.String.Basic

/-!
# Code points — the order of texts

Texts compare by the code points of their characters, from left to right.  The bytes of UTF-8 give the same
order (`lt_bytes`): of two characters the one with the greater code point has the greater byte where
their encodings first differ, and no encoding begins another one.
-/

namespace Offside.Text

/-! ## Characters -/

/-- The bytes of a character in UTF-8, as numbers. -/
def bytesOf (c : Char) : List Nat :=
  (String.utf8EncodeChar c).map UInt8.toNat

theorem bytesOf_eq (c : Char) :
    bytesOf c =
      if c.toNat ≤ 0x7f then [c.toNat]
      else if c.toNat ≤ 0x7ff then [c.toNat / 64 + 192, c.toNat % 64 + 128]
      else if c.toNat ≤ 0xffff then
        [c.toNat / 4096 + 224, c.toNat / 64 % 64 + 128, c.toNat % 64 + 128]
      else
        [c.toNat / 262144 + 240, c.toNat / 4096 % 64 + 128, c.toNat / 64 % 64 + 128,
          c.toNat % 64 + 128] := by
  have hvalue : c.val.toNat = c.toNat := rfl
  have hlt : c.toNat < 0x110000 := by
    rcases c.valid with h | ⟨-, h⟩ <;> omega
  simp only [bytesOf, String.utf8EncodeChar, hvalue]
  -- What is cut off from the first byte of each length is zero there.
  split
  · simp; omega
  split
  · simp; omega
  split
  · simp; omega
  · simp; omega

theorem bytesOf_ne_nil (c : Char) : bytesOf c ≠ [] := by
  rw [bytesOf_eq]
  split
  · nofun
  split
  · nofun
  split <;> nofun

/-- Where two encodings begin to differ, the greater code point has the greater byte. -/
theorem bytesOf_append_lt {c d : Char} (h : c < d) (xs ys : List Nat) :
    bytesOf c ++ xs < bytesOf d ++ ys := by
  have h : c.toNat < d.toNat := h
  rw [bytesOf_eq, bytesOf_eq]
  -- Either the encodings have one length, or the first byte tells which one is longer.
  split_ifs <;> simp only [List.cons_append, List.nil_append, List.cons_lt_cons_iff] <;> omega

/-! ## Texts -/

/-- The code points of a text. -/
def codePoints (s : String) : List Nat :=
  s.toList.flatMap fun c => [c.toNat]

/-- The bytes of a text in UTF-8, as numbers. -/
def bytes (s : String) : List Nat :=
  s.toUTF8.data.toList.map UInt8.toNat

theorem bytes_eq (s : String) : bytes s = s.toList.flatMap bytesOf := by
  have hbytes : s.toUTF8 = s.toList.utf8Encode := by
    rw [← String.toByteArray_ofList, String.ofList_toList]
    rfl
  rw [bytes, hbytes, List.utf8Encode, List.data_toByteArray, List.map_flatMap]
  rfl

/-- Encodings that respect the order of characters at the first difference respect that of texts. -/
theorem lt_flatMap {encode : Char → List Nat} (hne : ∀ c, encode c ≠ [])
    (hlt : ∀ c d, c < d → ∀ xs ys, encode c ++ xs < encode d ++ ys) {cs ds : List Char}
    (h : cs < ds) : cs.flatMap encode < ds.flatMap encode := by
  induction cs generalizing ds with
  | nil =>
      -- A text that begins the other one is the smaller one, as no character is written as nothing.
      cases ds with
      | nil => exact absurd h (lt_irrefl _)
      | cons d ds =>
          rcases List.exists_cons_of_ne_nil (hne d) with ⟨first, rest, hd⟩
          rw [List.flatMap_cons, hd]
          exact List.nil_lt_cons _ _
  | cons c cs ih =>
      cases ds with
      | nil => exact absurd h (List.not_lt_nil _)
      | cons d ds =>
          rw [List.flatMap_cons, List.flatMap_cons]
          rcases List.cons_lt_cons_iff.mp h with hc | ⟨rfl, hcs⟩
          · exact hlt c d hc _ _
          · exact List.append_left_lt (ih hcs)

theorem lt_codePoints {s t : String} (h : s < t) : codePoints s < codePoints t := by
  refine lt_flatMap (fun _ => List.cons_ne_nil _ _) ?_ (String.lt_iff_toList_lt.mp h)
  intro c d hcd xs ys
  exact List.cons_lt_cons_iff.mpr (.inl hcd)

theorem lt_bytes {s t : String} (h : s < t) : bytes s < bytes t := by
  rw [bytes_eq, bytes_eq]
  exact lt_flatMap bytesOf_ne_nil (fun _ _ => bytesOf_append_lt) (String.lt_iff_toList_lt.mp h)

end Offside.Text
