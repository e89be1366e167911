import Offside.Notice
import Offside.Parse.ParseError
import Offside.Program.Class
import Offside.Token.Source

/-!
# Parsers — pulling tokens one at a time

This file defines the state of a parser, which sees one token ahead, pulls the others from a source and
knows the classes declared so far, and the steps from which all parsers are made. A lexical error is met
when the token after the current one cannot be had, before anything else is decided.
-/

namespace Offside

/-- The state of a parser with a source of type `σ`. -/
structure ParseState (σ : Type) where
  current : Token
  /-- Where the tokens after the current one come from. -/
  source : σ
  /-- The classes whose definitions are complete, the latest first. -/
  classes : List Class
  notices : Array Notice

namespace ParseState

variable {σ : Type}

def class? (s : ParseState σ) (name : String) : Option Class :=
  s.classes.find? (·.name == name)

/-- A bound of the number of tokens left. Nothing is left at the end of the input. -/
def remaining [TokenSource σ] (s : ParseState σ) : Nat :=
  if s.current.kind = .endOfInput then 0 else TokenSource.size s.source + 1

end ParseState

/-- Why a parser stops: the text is wrong, or the parser is exhausted. Then its allowance of steps is used
up, or it has asked for a token behind the end of the input. -/
inductive Stop where
  | error (e : ParseError)
  | exhausted
deriving DecidableEq, Repr

abbrev Parser (σ : Type) := EStateM Stop (ParseState σ)

namespace Parser

variable {σ : Type}

/-! ## Steps -/

def fail {α : Type} (e : ParseError) : Parser σ α :=
  throw (.error e)

def exhausted {α : Type} : Parser σ α :=
  throw .exhausted

def kind : Parser σ Kind := fun s =>
  .ok s.current.kind s

/-- The line of the current token. -/
def line : Parser σ Nat := fun s =>
  .ok s.current.place.line s

/-- Refuses the current token. -/
def unexpected {α : Type} (expected : Expected) : Parser σ α := fun s =>
  .error (.error (.unexpectedToken expected s.current)) s

/-- A class that has been declared. -/
def class? (name : String) : Parser σ (Option Class) := fun s =>
  .ok (s.class? name) s

def declare (c : Class) : Parser σ Unit := fun s =>
  .ok () { s with
    classes := c :: s.classes
    notices := s.notices.push (.declared c.name (c.parent.map (·.name))) }

variable [TokenSource σ]

/-- Goes on to the next token. Behind a list of tokens that is used up the input has ended. Behind the
end of the input there is nothing to go on to, and no parser tries (`fares_statements`). -/
def advance : Parser σ Unit := fun s =>
  if s.current.kind = .endOfInput then
    .error .exhausted s
  else
    match TokenSource.pull s.source with
    | some (.ok token, after) =>
        .ok () { s with
          current := token, source := after, notices := s.notices.push (.read token) }
    | some (.error e, after) => .error (.error (.lexical e)) { s with source := after }
    | none => .ok () { s with current := { s.current with kind := .endOfInput } }

/-- Takes a token of the given kind. -/
def expect (k : Kind) : Parser σ Unit := do
  if (← kind) = k then advance else unexpected (.kind k)

def identifier : Parser σ String := do
  match ← kind with
  | .identifier name => advance; return name
  | _ => unexpected .identifier

/-! ## Repetition -/

/-- `p` as often as the current token starts another. -/
def whileKind {α : Type} (starts : Kind → Bool) (p : Parser σ α) : Nat → Parser σ (List α)
  | 0 => exhausted
  | n + 1 => do
      if starts (← kind) then
        let x ← p
        let xs ← whileKind starts p n
        return x :: xs
      else
        return []

/-- Items between parentheses, with commas between them. -/
def parenthesized {α : Type} (item : Parser σ α) (n : Nat) : Parser σ (List α) := do
  expect (.punct .leftParen)
  if (← kind) = .punct .rightParen then
    advance
    return []
  else
    let x ← item
    let xs ← whileKind (· = .punct .comma) (do advance; item) n
    expect (.punct .rightParen)
    return x :: xs

/-- Operands with operators between them, grouped from the left. -/
def leftChain {α : Type} (operand : Parser σ α) (op? : Kind → Option (α → α → α)) :
    Nat → α → Parser σ α
  | 0, _ => exhausted
  | n + 1, left => do
      match op? (← kind) with
      | some op =>
          advance
          let right ← operand
          leftChain operand op? n (op left right)
      | none => return left

end Parser

end Offside
