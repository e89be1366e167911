import Offside.Token.Lexer

/-!
# Token streams — a whole text as tokens

This file defines what a text gives when the lexer is called until it reports the end of the input: all
answers, and the stream of tokens before the first error. `tokenize` accepts the texts whose stream has
no fault.
-/

namespace Offside

namespace Lexer

/-- The answers of all calls up to the first that reports the end of the input, errors included, and the
lexer after them. -/
def run (l : Lexer) : List (Except LexError Token) × Lexer :=
  match _hnext : l.next with
  | (.ok token, after) =>
      if _hend : token.kind = .endOfInput then
        ([.ok token], after)
      else
        let later := run after
        (.ok token :: later.1, later.2)
  | (.error e, after) =>
      let later := run after
      (.error e :: later.1, later.2)
termination_by l.work
decreasing_by
  · rcases l.work_next with ⟨place, h⟩ | h
    · rw [_hnext] at h
      cases h
      exact absurd rfl _hend
    · simpa [_hnext] using h
  · rcases l.work_next with ⟨place, h⟩ | h
    · rw [_hnext] at h
      cases h
    · simpa [_hnext] using h

def answers (l : Lexer) : List (Except LexError Token) :=
  l.run.1

section Answers

variable {l after : Lexer} {token : Token}

theorem answers_of_end (h : l.next = (.ok token, after)) (hend : token.kind = .endOfInput) :
    l.answers = [.ok token] := by
  rw [answers, run]
  split
  next token' after' hnext =>
    cases h.symm.trans hnext
    rw [dif_pos hend]
  next e after' hnext => cases h.symm.trans hnext

theorem answers_of_token (h : l.next = (.ok token, after)) (hend : token.kind ≠ .endOfInput) :
    l.answers = .ok token :: after.answers := by
  rw [answers, run]
  split
  next token' after' hnext =>
    cases h.symm.trans hnext
    rw [dif_neg hend]
    rfl
  next e after' hnext => cases h.symm.trans hnext

theorem answers_of_error {e : LexError} (h : l.next = (.error e, after)) :
    l.answers = .error e :: after.answers := by
  rw [answers, run]
  split
  next token' after' hnext => cases h.symm.trans hnext
  next e' after' hnext =>
    cases h.symm.trans hnext
    rfl

end Answers

end Lexer

/-- The tokens of a text up to its end or to its first lexical error. -/
structure Stream where
  tokens : List Token
  fault : Option LexError
deriving DecidableEq, Repr

namespace Stream

def ofAnswers : List (Except LexError Token) → Stream
  | [] => ⟨[], none⟩
  | .ok token :: later => { ofAnswers later with tokens := token :: (ofAnswers later).tokens }
  | .error e :: _ => ⟨[], some e⟩

def ofText (text : List Char) : Stream :=
  ofAnswers (Lexer.ofText text).answers

end Stream

/-- All tokens of a source text, or its first lexical error. -/
def tokenize (source : String) : Except LexError (List Token) :=
  let stream := Stream.ofText source.toList
  match stream.fault with
  | none => .ok stream.tokens
  | some e => .error e

theorem tokenize_eq_ok_iff {source : String} {tokens : List Token} :
    tokenize source = .ok tokens ↔ Stream.ofText source.toList = ⟨tokens, none⟩ := by
  unfold tokenize
  rcases Stream.ofText source.toList with ⟨found, fault⟩
  cases fault with
  | none => simp
  | some e => simp

end Offside
