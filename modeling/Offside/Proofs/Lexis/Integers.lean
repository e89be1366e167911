import Offside.Proofs.Lexis.Literals
import Mathlib.Data.List.Induction
import Mathlib.Data.Nat.Digits.Defs

/-!
# Integers — runs of digits that are read as words

A run of digits may be of any length, and what is read from it is a word of 64 bits.  This file says when
there is such a word:

- `Text.value`         : the number that a run of digits stands for, by the places of its digits
- `Lexer.ReadsInteger` : what the lexer makes of a run that stands ahead of it

The main statement, `readsInteger`, goes by the number of the run and not by its length, so that zeros in
front of it make no difference.
-/

namespace Offside

/-! ## Numbers of runs -/

namespace Text

def digit (d : Char) : Nat :=
  d.toNat - '0'.toNat

/-- The number that a run of digits stands for. Its last digit counts ones. -/
def value (digits : List Char) : Nat :=
  Nat.ofDigits 10 (digits.reverse.map digit)

theorem value_concat (digits : List Char) (d : Char) :
    value (digits ++ [d]) = digit d + 10 * value digits := by
  rw [value, List.reverse_append, List.reverse_singleton, List.singleton_append, List.map_cons,
    Nat.ofDigits_cons]
  rfl

/-- The number is found from left to right as well. -/
theorem decimal_eq_value (digits : List Char) : Lexeme.decimal digits = value digits := by
  induction digits using List.reverseRecOn with
  | nil => rfl
  | append_singleton digits d ih =>
      rw [value_concat, ← ih, Lexeme.decimal, List.foldl_append, List.foldl_cons, List.foldl_nil,
        Nat.add_comm]
      rfl

end Text

namespace Lexeme

variable {run later : List Char}

theorem toInt_ofNat {n : Nat} (h : n ≤ maxInteger) : (Int64.ofNat n).toInt = n := by
  refine Int64.toInt_ofNat_of_lt ?_
  rw [maxInteger] at h
  omega

/-- The longest run of digits is read as a whole. -/
theorem integer_append (hdigits : ∀ d ∈ run, d.isDigit = true)
    (hlater : ∀ d ∈ later.head?, d.isDigit = false) :
    integer (run ++ later) = {
      reading :=
        if Text.value run ≤ maxInteger then .ok (.integer (Int64.ofNat (Text.value run)))
        else .error (.bigInteger (String.ofList run))
      taken := run
      rest := later } := by
  rcases takeWhile_dropWhile_append hdigits hlater with ⟨htaken, hrest⟩
  simp only [integer, htaken, hrest, Text.decimal_eq_value]

section Digits

variable {d : Char} (hdigits : ∀ e ∈ d :: run, e.isDigit = true)
  (hlater : ∀ e ∈ later.head?, e.isDigit = false)
include hdigits hlater

theorem read_of_value_le (h : Text.value (d :: run) ≤ maxInteger) :
    read d (run ++ later)
      = ⟨.ok (.integer (Int64.ofNat (Text.value (d :: run)))), d :: run, later⟩ := by
  rw [read, if_pos (hdigits d List.mem_cons_self), ← List.cons_append,
    integer_append hdigits hlater, if_pos h]

theorem read_of_lt_value (h : maxInteger < Text.value (d :: run)) :
    read d (run ++ later) = ⟨.error (.bigInteger (String.ofList (d :: run))), d :: run, later⟩ := by
  rw [read, if_pos (hdigits d List.mem_cons_self), ← List.cons_append,
    integer_append hdigits hlater, if_neg (Nat.not_le_of_lt h)]

end Digits

end Lexeme

/-! ## What the lexer reads -/

namespace Lexer

variable {l : Lexer} {before gap : List Char}

/-- Where no block opens or closes, the token behind some blanks is read, at its place in the line. -/
theorem scan_behind {x : Char} {more : List Char} (hlevel : l.level = l.cursor.level)
    (hstands : l.cursor.Stands before) (hrest : l.cursor.rest = gap ++ x :: more)
    (hgap : ∀ d ∈ gap, Text.isBlank d = true) (hx : Text.isBlank x = false) :
    l.scan
      = (tokenAt
            ⟨l.cursor.lineNumber, l.cursor.leadingSpaces + Text.byteSize (before ++ gap) + 1⟩
            (.read x more),
          { l with
            cursor := l.cursor.moveOver (gap ++ (Lexeme.read x more).taken)
              (Lexeme.read x more).rest }) := by
  have hfirst : ∀ d ∈ (x :: more).head?, Text.isBlank d = false := by
    intro d hd
    rwa [← Option.mem_some_iff.mp hd]
  rcases Lexeme.takeWhile_dropWhile_append hgap hfirst with ⟨hblanks, hhead⟩
  rw [← hrest] at hblanks hhead
  have hskip : l.cursor.skipBlanks = l.cursor.moveOver gap (x :: more) := by
    rw [Cursor.skipBlanks, hblanks, hhead]
  have hplace : (l.cursor.moveOver gap (x :: more)).place
      = ⟨l.cursor.lineNumber, l.cursor.leadingSpaces + Text.byteSize (before ++ gap) + 1⟩ := by
    rw [Text.byteSize_append, ← hstands.position]
    rfl
  have hmoved : (l.cursor.moveOver gap (x :: more)).moveOver (Lexeme.read x more).taken
        (Lexeme.read x more).rest
      = l.cursor.moveOver (gap ++ (Lexeme.read x more).taken) (Lexeme.read x more).rest :=
    Cursor.moveOver_moveOver ..
  have hsame : ¬l.level < l.cursor.level ∧ ¬l.cursor.level < l.level := by omega
  rw [scan, if_neg hsame.1, if_neg hsame.2, scanLine, hskip, ← hplace, ← hmoved]
  rfl

/-- What the lexer makes of a run of digits behind some blanks: a word that stands for its number, if
there is one, and an error with the whole run otherwise. In either case it goes on behind the run. -/
structure ReadsInteger (l : Lexer) (before gap run later : List Char) : Prop where
  fits : Text.value run ≤ 2 ^ 63 - 1 → ∃ n : Int64, n.toInt = Text.value run ∧ l.scan
    = (.ok ⟨.integer n,
          ⟨l.cursor.lineNumber, l.cursor.leadingSpaces + Text.byteSize (before ++ gap) + 1⟩⟩,
        { l with cursor := l.cursor.moveOver (gap ++ run) later })
  exceeds : 2 ^ 63 - 1 < Text.value run → l.scan
    = (.error (.invalidInteger (String.ofList run)
          ⟨l.cursor.lineNumber, l.cursor.leadingSpaces + Text.byteSize (before ++ gap) + 1⟩),
        { l with cursor := l.cursor.moveOver (gap ++ run) later })

theorem readsInteger {run later : List Char} (hlevel : l.level = l.cursor.level)
    (hstands : l.cursor.Stands before) (hrest : l.cursor.rest = gap ++ run ++ later)
    (hgap : ∀ d ∈ gap, Text.isBlank d = true) (hnonempty : run ≠ [])
    (hdigits : ∀ d ∈ run, d.isDigit = true) (hlater : ∀ d ∈ later.head?, d.isDigit = false) :
    l.ReadsInteger before gap run later := by
  rcases List.exists_cons_of_ne_nil hnonempty with ⟨d, run, rfl⟩
  have hsplit : l.cursor.rest = gap ++ d :: (run ++ later) := by
    rw [hrest, List.append_assoc, List.cons_append]
  have hhead := Lexeme.isBlank_eq_false_of_isDigit (hdigits d List.mem_cons_self)
  have hscan := scan_behind hlevel hstands hsplit hgap hhead
  constructor
  · intro hfits
    rw [Lexeme.read_of_value_le hdigits hlater hfits] at hscan
    exact ⟨_, Lexeme.toInt_ofNat hfits, hscan⟩
  · intro hexceeds
    rw [Lexeme.read_of_lt_value hdigits hlater hexceeds] at hscan
    exact hscan

end Lexer

/-! ## Lines that are read -/

/-- No line with too great a number ahead is read to its end. -/
theorem Layout.Reads.value_le {run later : List Char} {ks : List Kind}
    (h : Layout.Reads (run ++ later) ks) (hnonempty : run ≠ [])
    (hdigits : ∀ d ∈ run, d.isDigit = true) (hlater : ∀ d ∈ later.head?, d.isDigit = false) :
    Text.value run ≤ Lexeme.maxInteger := by
  rcases List.exists_cons_of_ne_nil hnonempty with ⟨d, run, rfl⟩
  have hhead := Lexeme.isBlank_eq_false_of_isDigit (hdigits d List.mem_cons_self)
  have hall : Layout.Reads ([] ++ d :: (run ++ later)) ks := h
  rcases hall.exists_token rfl hhead with ⟨k, ks', hread, -⟩
  refine Nat.le_of_not_lt fun hexceeds => ?_
  rw [Lexeme.read_of_lt_value hdigits hlater hexceeds] at hread
  cases hread

end Offside
