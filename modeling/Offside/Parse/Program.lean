import Offside.Parse.Progress

/-!
# Reading programs — from a source text to its statements

This file defines what a source text means: a program, or the first thing that is wrong with it, and the
notices that reading it records. The parser pulls the tokens from the lexer, call by call. The allowance of
steps is taken from what is left to read and does not show.
-/

namespace Offside

variable {σ : Type} [TokenSource σ]

/-- The state before the first token. A source without tokens counts as an empty text. -/
def ParseState.ofSource (source : σ) : Except LexError (ParseState σ) :=
  match TokenSource.pull source with
  | some (.ok token, after) => .ok ⟨token, after, [], #[.read token]⟩
  | some (.error e, _) => .error e
  | none => .ok ⟨⟨.endOfInput, ⟨0, 1⟩⟩, source, [], #[]⟩

/-- The outcome of reading a program and the notices on the way. -/
structure Parsed where
  outcome : Except ParseError Program
  notices : Array Notice

namespace Program

def ofState (s : ParseState σ) : Parsed :=
  match hrun : Parser.statements (s.remaining + 1) s with
  | .ok statements after => ⟨.ok ⟨statements⟩, after.notices⟩
  | .error (.error e) after => ⟨.error e, after.notices⟩
  | .error .exhausted _ => nomatch hrun ▸ Parser.fares_statements (Nat.lt_succ_self s.remaining)

/-- Reads what a source has. -/
def ofSource (source : σ) : Parsed :=
  match ParseState.ofSource source with
  | .ok s => ofState s
  | .error e => ⟨.error (.lexical e), #[]⟩

/-- Reads a source text, one token at a time as the lexer answers. -/
def read (source : String) : Parsed :=
  ofSource (Lexer.ofText source.toList)

/-- The program that a source text is. -/
def parse (source : String) : Except ParseError Program :=
  (read source).outcome

end Program

end Offside
