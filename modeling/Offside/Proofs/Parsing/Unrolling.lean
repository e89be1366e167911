import Offside.Proofs.Grammar.Steps
import Offside.Proofs.Parsing.Simulation

/-!
# Unrolling — the lexer as the stream of its answers

A parser calls the lexer for one token at a time.  This file shows that it reads the same from the stream
of all answers:

- `ParseState.unrolled` : the state with the answers that are to come in place of the lexer
- `Parser.unrolling`    : the simulation of a state by the unrolled one

Each step takes the lexer and its answers one call further.  The main statement is
`Program.read_eq_ofSource`: what is proved of parsers that read a stream holds of the readings of texts.
-/

namespace Offside

/-! ## One call of the lexer -/

namespace Stream

variable {l after : Lexer} {token : Token}

/-- Behind the end of the input there is nothing, whatever the lexer would go on to answer. -/
theorem ofAnswers_of_token (h : l.next = (.ok token, after)) :
    ∃ later, ofAnswers l.answers = ⟨token :: later.tokens, later.fault⟩
      ∧ later = if token.kind = .endOfInput then ⟨[], none⟩ else ofAnswers after.answers := by
  refine ⟨_, ?_, rfl⟩
  split
  next hend => rw [Lexer.answers_of_end h hend, ofAnswers, ofAnswers]
  next hend => rw [Lexer.answers_of_token h hend, ofAnswers]

theorem ofAnswers_of_error {e : LexError} (h : l.next = (.error e, after)) :
    ofAnswers l.answers = ⟨[], some e⟩ := by
  rw [Lexer.answers_of_error h, ofAnswers]

end Stream

/-! ## States and parsers -/

/-- The state with a stream in place of the lexer. At the end of the input there is nothing left of it. -/
def ParseState.unrolled (s : ParseState Lexer) : ParseState Stream where
  current := s.current
  source := if s.current.kind = .endOfInput then ⟨[], none⟩ else .ofAnswers s.source.answers
  classes := s.classes
  notices := s.notices

namespace Parser

/-- A call of the lexer takes one answer off the stream. -/
theorem matches_advance_unrolled (s : ParseState Lexer) :
    Matches (fun u v => v = u.unrolled) (fun e u e' v => e = e' ∧ v.notices = u.notices)
      (advance s) (advance s.unrolled) := by
  by_cases hend : s.current.kind = .endOfInput
  · -- The lexer would answer again, and the stream has come to its end.
    rw [advance_of_end hend]
    exact .exhausted s _
  have hsource : s.unrolled.source = .ofAnswers s.source.answers := if_neg hend
  rw [advance_of_ne (s := s.unrolled) hend, ParseState.upcoming, ParseState.fault, hsource]
  rcases hnext : s.source.next with ⟨e | token, after⟩
  · rw [advance_of_error hend (congrArg some hnext), Stream.ofAnswers_of_error hnext]
    exact .error ⟨rfl, rfl⟩
  · rcases Stream.ofAnswers_of_token hnext with ⟨later, hanswers, rfl⟩
    rw [advance_of_token hend (congrArg some hnext), hanswers]
    exact .ok () rfl

/-- What a parser does with the lexer it does from the unrolled state, with the same notices. -/
def unrolling : Simulation Lexer Stream where
  Lines := Eq
  States u v := v = u.unrolled
  Errors e u e' v := e = e' ∧ v.notices = u.notices
  kind h := h ▸ rfl
  line h := h ▸ rfl
  class? h _ := h ▸ rfl
  declare h _ := h ▸ .ok () rfl
  advance h := h ▸ matches_advance_unrolled _
  unexpected h _ := h ▸ ⟨rfl, rfl⟩
  fail h _ _ he := h ▸ ⟨he.eq, rfl⟩

end Parser

/-! ## Whole texts -/

namespace ParseState

variable {l after : Lexer}

/-- A parser starts with the first call of the lexer. -/
theorem ofSource_of_token {token : Token} (h : l.next = (.ok token, after)) :
    ofSource l = .ok ⟨token, after, [], #[.read token]⟩ := by
  have hpull : TokenSource.pull l = some (.ok token, after) := congrArg some h
  rw [ofSource, hpull]

theorem ofSource_of_error {e : LexError} (h : l.next = (.error e, after)) :
    ofSource l = .error e := by
  have hpull : TokenSource.pull l = some (.error e, after) := congrArg some h
  rw [ofSource, hpull]

/-- The first token of the lexer is that of the stream. -/
theorem ofSource_answers (l : Lexer) :
    ofSource (Stream.ofAnswers l.answers) = (ofSource l).map unrolled := by
  rcases hnext : l.next with ⟨e | token, after⟩
  · rw [ofSource_of_error hnext, Stream.ofAnswers_of_error hnext]
    rfl
  · rcases Stream.ofAnswers_of_token hnext with ⟨later, hanswers, rfl⟩
    rw [ofSource_of_token hnext, hanswers]
    rfl

end ParseState

namespace Program

theorem ofState_unrolled (s : ParseState Lexer) : ofState s.unrolled = ofState s := by
  rcases ofState_simulated Parser.unrolling (rfl : s.unrolled = s.unrolled)
    with ⟨p, u, v, huv, hu, hv⟩ | ⟨e, e', u, v, ⟨he, hnotices⟩, hu, hv⟩
  · rw [hu, hv, show v = u.unrolled from huv]
    rfl
  · rw [hu, hv, he, hnotices]

/-- The reading of a text is that of its stream. -/
theorem read_eq_ofSource (source : String) : read source = ofSource (Stream.ofText source.toList) := by
  rw [read, ofSource, ofSource, Stream.ofText, ParseState.ofSource_answers]
  cases ParseState.ofSource (Lexer.ofText source.toList) with
  | ok s => exact (ofState_unrolled s).symm
  | error e => rfl

end Program

end Offside
