import Offside.Source.LexError
import Offside.Text.Blank
import Offside.Text.Line

/-!
# Cursor — reading a text one line with content at a time

This file defines a cursor over the lines of a text. A line is loaded without its leading spaces, which
are kept as a count; lines that hold only blanks are passed over. The end of a line and the end of the
text stop the cursor: only `advance` moves it on.
-/

namespace Offside

structure Cursor where
  /-- Lines that have not been looked at. -/
  pending : List (List Char)
  /-- The current line without its leading spaces. -/
  line : List Char
  /-- The part of the current line that has not been read. -/
  rest : List Char
  /-- How many bytes of the current line have been read. -/
  position : Nat
  /-- How many lines have been looked at. -/
  lineNumber : Nat
  leadingSpaces : Nat
  atEnd : Bool
deriving DecidableEq, Repr

namespace Cursor

/-- What stands at a cursor. -/
inductive Ahead where
  | char (c : Char)
  | endOfLine
  | endOfText
deriving DecidableEq, Repr

/-- A cursor before the first line of a text. -/
def ofText (text : List Char) : Cursor where
  pending := Text.lines text
  line := []
  rest := []
  position := 0
  lineNumber := 0
  leadingSpaces := 0
  atEnd := false

/-! ## Views -/

/-- The block depth of the current line: two spaces a level. -/
def level (c : Cursor) : Nat :=
  c.leadingSpaces / 2

def place (c : Cursor) : Position :=
  ⟨c.lineNumber, c.leadingSpaces + c.position + 1⟩

def ahead (c : Cursor) : Ahead :=
  if c.atEnd then .endOfText
  else
    match c.rest with
    | [] => .endOfLine
    | x :: _ => .char x

/-! ## Moves within a line -/

/-- Moves over a part of the current line. -/
def moveOver (c : Cursor) (taken rest : List Char) : Cursor :=
  { c with rest := rest, position := c.position + Text.byteSize taken }

/-- Moves over the next character, if there is one on this line. -/
def bump (c : Cursor) : Cursor :=
  match c.ahead, c.rest with
  | .char x, _ :: rest => c.moveOver [x] rest
  | _, _ => c

def skipBlanks (c : Cursor) : Cursor :=
  c.moveOver (c.rest.takeWhile Text.isBlank) (c.rest.dropWhile Text.isBlank)

/-! ## Moves between lines -/

/-- The cursor after the last line. Its level is zero, so that every open block gets closed. -/
def finish (c : Cursor) : Cursor :=
  { c with
    pending := [], line := [], rest := [], position := 0, leadingSpaces := 0, atEnd := true }

/-- Makes a line with content the current one. An odd number of leading spaces is an error, and then
nothing changes. -/
def load (c : Cursor) (raw : List Char) : Except LexError Unit × Cursor :=
  let content := raw.dropWhile (· = ' ')
  let spaces := (raw.takeWhile (· = ' ')).length
  if spaces % 2 = 1 then
    (.error (.oddIndentation spaces c.lineNumber), c)
  else
    (.ok (), { c with line := content, rest := content, position := 0, leadingSpaces := spaces })

/-- Takes lines until one has content, and loads it. -/
def advanceThrough (c : Cursor) : List (List Char) → Except LexError Unit × Cursor
  | [] => (.ok (), c.finish)
  | raw :: later =>
      let passed := { c with pending := later, lineNumber := c.lineNumber + 1 }
      if raw.all Text.isBlank then passed.advanceThrough later else passed.load raw

/-- Loads the next line with content. -/
def advance (c : Cursor) : Except LexError Unit × Cursor :=
  c.advanceThrough c.pending

/-! ## Progress -/

/-- The size of lines that have not been looked at: their characters and their ends. -/
def sizeOfLines : List (List Char) → Nat
  | [] => 0
  | raw :: later => raw.length + 1 + sizeOfLines later

/-- What is left to read, where `depth` blocks are open: the lines and characters ahead, the end of the
text, and the blocks that the current line opens, each of which was written with two spaces. -/
def work (c : Cursor) (depth : Nat) : Nat :=
  sizeOfLines c.pending + c.rest.length + (if c.atEnd then 0 else 1)
    + 2 * (c.level - depth)

theorem work_load_le (c : Cursor) (raw : List Char) (depth : Nat) :
    (c.load raw).2.work depth ≤ c.work depth + raw.length := by
  have hlen : (raw.takeWhile (· = ' ')).length + (raw.dropWhile (· = ' ')).length = raw.length := by
    rw [← List.length_append, List.takeWhile_append_dropWhile]
  simp only [load]
  split
  · simp
  · -- The blocks that the line opens are paid for by its leading spaces, two for each.
    simp only [work, level]
    omega

theorem work_finish (c : Cursor) (depth : Nat) : c.finish.work depth = 0 := by
  simp [finish, work, level, sizeOfLines]

/-- Taking lines lowers the work unless there is nothing left to take. -/
theorem work_advanceThrough (c : Cursor) (raws : List (List Char)) (depth : Nat) :
    (c.advanceThrough raws).2.work depth < { c with pending := raws : Cursor }.work depth
      ∨ c.atEnd = true ∧ c.advanceThrough raws = (.ok (), c.finish) := by
  induction raws generalizing c with
  | nil =>
      cases hend : c.atEnd with
      | true => exact .inr ⟨rfl, rfl⟩
      | false =>
          left
          simp only [advanceThrough, work_finish]
          simp only [work, Bool.false_eq_true, if_false]
          omega
  | cons raw later ih =>
      simp only [advanceThrough]
      split
      · -- A blank line is gone, whatever comes of the later ones.
        left
        rcases ih { c with pending := later, lineNumber := c.lineNumber + 1 } with h | ⟨_, h⟩
        · simp only [work, level, sizeOfLines] at h ⊢
          omega
        · rw [h, work_finish]
          simp only [work, sizeOfLines]
          omega
      · left
        have h := work_load_le
          { c with pending := later, lineNumber := c.lineNumber + 1 } raw depth
        simp only [work, level, sizeOfLines] at h ⊢
        omega

theorem work_advance (c : Cursor) (depth : Nat) :
    c.advance.2.work depth < c.work depth ∨ c.atEnd = true ∧ c.advance = (.ok (), c.finish) :=
  work_advanceThrough c c.pending depth

theorem work_moveOver_le (c : Cursor) (taken rest : List Char) (depth : Nat)
    (h : rest.length ≤ c.rest.length) : (c.moveOver taken rest).work depth ≤ c.work depth :=
  Nat.add_le_add_right (Nat.add_le_add_right (Nat.add_le_add_left h _) _) _

theorem work_moveOver_lt (c : Cursor) (taken rest : List Char) (depth : Nat)
    (h : rest.length < c.rest.length) : (c.moveOver taken rest).work depth < c.work depth :=
  Nat.add_lt_add_right (Nat.add_lt_add_right (Nat.add_lt_add_left h _) _) _

theorem work_skipBlanks_le (c : Cursor) (depth : Nat) :
    c.skipBlanks.work depth ≤ c.work depth :=
  c.work_moveOver_le _ _ depth (List.dropWhile_sublist _).length_le

end Cursor

end Offside
