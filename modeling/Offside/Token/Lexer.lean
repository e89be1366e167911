import Offside.Source.Cursor
import Offside.Token.Lexeme

/-!
# Lexer — one token a call

This file defines the lexer: a cursor and the number of blocks that are open. Each call of `next` gives
one token or one lexical error and the lexer to go on with, after an error too. A change of indentation
is reported one level a call. The main statement, `work_next`, gives the measure that every call but
the last one lowers.
-/

namespace Offside

structure Lexer where
  cursor : Cursor
  /-- The number of blocks that have been opened and not closed. -/
  level : Nat
  /-- Whether the first line has been asked for. -/
  started : Bool
deriving DecidableEq, Repr

namespace Lexer

def ofText (text : List Char) : Lexer where
  cursor := .ofText text
  level := 0
  started := false

/-! ## Tokens -/

/-- The error that a malformed token at a place is. -/
def errorAt (place : Position) : Malformed → LexError
  | .unexpected character => .unexpectedCharacter character place
  | .bigInteger digits => .invalidInteger digits place
  | .unterminated => .unterminatedString place

/-- The token of a reading at a place. -/
def tokenAt (place : Position) (read : Lexeme) : Except LexError Token :=
  match read.reading with
  | .ok kind => .ok ⟨kind, place⟩
  | .error m => .error (errorAt place m)

/-- The token at the cursor, which stands on no blank. -/
def scanHere (l : Lexer) : Except LexError Token × Lexer :=
  match l.cursor.rest with
  | x :: more =>
      (tokenAt l.cursor.place (.read x more),
        { l with
          cursor := l.cursor.moveOver (Lexeme.read x more).taken (Lexeme.read x more).rest })
  | [] =>
      if l.cursor.atEnd then
        (.ok ⟨.endOfInput, l.cursor.place⟩, l)
      else
        (l.cursor.advance.1.map fun _ => ⟨.newline, l.cursor.place⟩,
          { l with cursor := l.cursor.advance.2 })

/-- The next token of the current line, or its end. -/
def scanLine (l : Lexer) : Except LexError Token × Lexer :=
  scanHere { l with cursor := l.cursor.skipBlanks }

/-- The next token once a line is loaded: first the blocks that the line opens or closes. -/
def scan (l : Lexer) : Except LexError Token × Lexer :=
  if l.level < l.cursor.level then
    (.ok ⟨.indent, l.cursor.place⟩, { l with level := l.level + 1 })
  else if l.cursor.level < l.level then
    (.ok ⟨.dedent, l.cursor.place⟩, { l with level := l.level - 1 })
  else
    l.scanLine

/-- The next token. The first call loads the first line. -/
def next (l : Lexer) : Except LexError Token × Lexer :=
  if l.started then
    l.scan
  else
    match l.cursor.advance with
    | (.ok (), c) => scan { l with cursor := c, started := true }
    -- The first line has been asked for even if it cannot be loaded.
    | (.error e, c) => (.error e, { l with cursor := c, started := true })

/-! ## Progress -/

/-- What is left to read, and the blocks to close. -/
def work (l : Lexer) : Nat :=
  l.cursor.work l.level + l.level

theorem work_scanHere (l : Lexer) :
    (∃ place, l.scanHere.1 = .ok ⟨.endOfInput, place⟩) ∨ l.scanHere.2.work < l.work := by
  unfold scanHere
  split
  next x more hrest =>
    right
    have hlt : (Lexeme.read x more).rest.length < l.cursor.rest.length := by
      simpa [hrest] using Lexeme.length_rest_lt x more
    exact Nat.add_lt_add_right (l.cursor.work_moveOver_lt _ _ l.level hlt) l.level
  next hrest =>
    split
    next hend => exact .inl ⟨_, rfl⟩
    next hend =>
      right
      rcases l.cursor.work_advance l.level with h | ⟨h, _⟩
      · exact Nat.add_lt_add_right h l.level
      · exact absurd h hend

theorem work_scanLine (l : Lexer) :
    (∃ place, l.scanLine.1 = .ok ⟨.endOfInput, place⟩) ∨ l.scanLine.2.work < l.work := by
  have hskip := Nat.add_le_add_right (l.cursor.work_skipBlanks_le l.level) l.level
  rcases work_scanHere { l with cursor := l.cursor.skipBlanks } with h | h
  · exact .inl h
  · exact .inr (Nat.lt_of_lt_of_le h hskip)

theorem work_scan (l : Lexer) :
    (∃ place, l.scan.1 = .ok ⟨.endOfInput, place⟩) ∨ l.scan.2.work < l.work := by
  unfold scan
  split
  · right
    simp only [work, Cursor.work]
    omega
  split
  · right
    simp only [work, Cursor.work]
    omega
  · exact l.work_scanLine

/-- Every call but one that reports the end of the input lowers the work. -/
theorem work_next (l : Lexer) :
    (∃ place, l.next.1 = .ok ⟨.endOfInput, place⟩) ∨ l.next.2.work < l.work := by
  unfold next
  split
  · exact l.work_scan
  split
  next c hadv =>
    -- Loading the first line may leave as much to read, but then the call takes from it.
    have hle : c.work l.level ≤ l.cursor.work l.level := by
      rcases l.cursor.work_advance l.level with h | ⟨_, h⟩
      · rw [hadv] at h
        exact Nat.le_of_lt h
      · rw [hadv] at h
        cases h
        simp [Cursor.work_finish]
    rcases work_scan { l with cursor := c, started := true } with h | h
    · exact .inl h
    · right
      simp only [work] at h ⊢
      omega
  next e c hadv =>
    right
    rcases l.cursor.work_advance l.level with h | ⟨_, h⟩
    · rw [hadv] at h
      exact Nat.add_lt_add_right h l.level
    · rw [hadv] at h
      cases h

end Lexer

end Offside
