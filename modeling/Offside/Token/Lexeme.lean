import Offside.Text.Letter
import Offside.Text.Line
import Offside.Text.Numeral
import Offside.Token.Kind

/-!
# Lexemes — reading one token from the characters of a line

This file defines how a token that starts with a given character is read. Nothing is known here of
places or of lines: a reading says what was recognised, which characters it took and which remain. The
main statement, `taken_append_rest`, says that the two parts are the characters that were given.
-/

namespace Offside

/-- Why no token stands at a place in a line. -/
inductive Malformed where
  | unexpected (character : Char)
  | bigInteger (digits : String)
  | unterminated
deriving DecidableEq, Repr

/-- The outcome of reading one token: what it is, what was taken and what remains of the line. A
malformed token is taken as well. -/
structure Lexeme where
  reading : Except Malformed Kind
  taken : List Char
  rest : List Char

namespace Lexeme

/-! ## Names and keywords -/

def startsName (c : Char) : Bool :=
  Text.isLetter c || c = '_'

def continuesName (c : Char) : Bool :=
  Text.isLetter c || Text.isNumeral c || c = '_'

/-- The longest name at the head of a text. -/
def word (cs : List Char) : Lexeme where
  reading := .ok (.ofWord (String.ofList (cs.takeWhile continuesName)))
  taken := cs.takeWhile continuesName
  rest := cs.dropWhile continuesName

/-! ## Integers -/

/-- The greatest integer that can be written: the greatest of 64 bits with a sign. -/
def maxInteger : Nat := 0x7FFFFFFFFFFFFFFF

/-- The number that a run of decimal digits stands for. -/
def decimal (digits : List Char) : Nat :=
  digits.foldl (fun n d => 10 * n + (d.toNat - '0'.toNat)) 0

/-- The longest run of digits at the head of a text. -/
def integer (cs : List Char) : Lexeme :=
  let digits := cs.takeWhile Char.isDigit
  { reading :=
      if decimal digits ≤ maxInteger then .ok (.integer (Int64.ofNat (decimal digits)))
      else .error (.bigInteger (String.ofList digits))
    taken := digits
    rest := cs.dropWhile Char.isDigit }

/-! ## Strings -/

/-- The character that a backslash and `c` stand for. -/
def unescape (c : Char) : Char :=
  if c = 'n' then '\n' else if c = 't' then '\t' else c

/-- The outcome of reading a string after its opening quote: its text if the closing quote was found. -/
structure Literal where
  text? : Option (List Char)
  taken : List Char
  rest : List Char

/-- Puts a character of the text in front, which was written as `source`. -/
def Literal.push (source : List Char) (c : Char) (l : Literal) : Literal :=
  { l with text? := l.text?.map (c :: ·), taken := source ++ l.taken }

def literal (quote : Char) : List Char → Literal
  | [] => ⟨none, [], []⟩
  -- A backslash at the end of the line stands before nothing and is taken by itself.
  | ['\\'] => ⟨none, ['\\'], []⟩
  | '\\' :: c :: cs => (literal quote cs).push ['\\', c] (unescape c)
  | c :: cs =>
      if c = quote then ⟨some [], [c], cs⟩
      else (literal quote cs).push [c] c

/-- The string at the head of a text that starts with its opening quote. -/
def string (quote : Char) (cs : List Char) : Lexeme :=
  let l := literal quote cs
  { reading :=
      match l.text? with
      | some text => .ok (.string (String.ofList text))
      | none => .error .unterminated
    taken := quote :: l.taken
    rest := l.rest }

/-! ## Punctuation -/

/-- The longest mark at the head of a text. A character that starts none is taken by itself. -/
def punct (c : Char) (cs : List Char) : Lexeme :=
  match Punct.withEquals? c, cs with
  | some p, '=' :: rest => ⟨.ok (.punct p), [c, '='], rest⟩
  | _, _ =>
      match Punct.single? c with
      | some p => ⟨.ok (.punct p), [c], cs⟩
      | none => ⟨.error (.unexpected c), [c], cs⟩

/-! ## All tokens -/

def isQuote (c : Char) : Bool :=
  c = '\x22' || c = '\x27'

/-- The token at the head of a text that starts with `c`, which is not blank. -/
def read (c : Char) (cs : List Char) : Lexeme :=
  if c.isDigit then integer (c :: cs)
  else if startsName c then word (c :: cs)
  else if isQuote c then string c cs
  else punct c cs

/-! ## Nothing is lost -/

theorem literal_taken_append_rest (quote : Char) (cs : List Char) :
    (literal quote cs).taken ++ (literal quote cs).rest = cs := by
  fun_induction literal quote cs <;> simp_all [Literal.push]

theorem taken_append_rest (c : Char) (cs : List Char) :
    (read c cs).taken ++ (read c cs).rest = c :: cs := by
  unfold read
  split
  · simp [integer, List.takeWhile_append_dropWhile]
  split
  · simp [word, List.takeWhile_append_dropWhile]
  split
  · simp [string, literal_taken_append_rest]
  · unfold punct
    split
    · simp
    · split <;> simp

theorem continuesName_of_startsName {c : Char} (h : startsName c = true) :
    continuesName c = true := by
  simp only [startsName, Bool.or_eq_true] at h
  rcases h with h | h <;> simp [continuesName, h]

/-- A reading takes at least one character. -/
theorem taken_ne_nil (c : Char) (cs : List Char) : (read c cs).taken ≠ [] := by
  unfold read
  split
  · simp [integer, *]
  split
  · simp [word, continuesName_of_startsName, *]
  split
  · simp [string]
  · unfold punct
    split
    · simp
    · split <;> simp

theorem length_rest_lt (c : Char) (cs : List Char) : (read c cs).rest.length < cs.length + 1 := by
  have hall := congrArg List.length (taken_append_rest c cs)
  have hpos := List.length_pos_iff.mpr (taken_ne_nil c cs)
  simp only [List.length_append, List.length_cons] at hall
  omega

end Lexeme

end Offside
