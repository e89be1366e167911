import Offside.Parse.Expression

/-!
# Statements — blocks, classes and whole programs

This file defines the parsers of statements. A class is declared when its definition is complete, so
that later text can inherit from it and construct it, and its own methods cannot.
-/

namespace Offside.Parser

variable {σ : Type} [TokenSource σ]

/-! ## Simple statements -/

/-- A write to a variable or, where the path has a dot, to a field. -/
def assignment (target : String × List String) (value : Node) : Node :=
  match splitLast target with
  | ([], name) => .assign name value
  | (object, name) => .setField object name value

def assignmentOrCall (n : Nat) : Parser σ Node := do
  let start ← line
  let target ← path n
  if (← kind) = .punct .assign then
    advance
    let value ← expression n
    return assignment target value
  else
    callTail (expression n) n target start

def simpleStatement (n : Nat) : Parser σ Node := do
  match ← kind with
  | .keyword .returnKw =>
      advance
      let value ← expression n
      return .ret value
  | .keyword .printKw =>
      advance
      if (← kind) = .newline then
        return .print []
      else
        let args ← parenthesized (expression n) n
        return .print args
  | _ => assignmentOrCall n

/-! ## Blocks -/

def endsBlock (k : Kind) : Bool :=
  k = .dedent || k = .endOfInput

/-- An indented block of statements. -/
def block (statement : Parser σ Node) (n : Nat) : Parser σ Node := do
  expect .newline
  expect .indent
  let body ← whileKind (fun k => !endsBlock k) statement n
  expect .dedent
  return .block body

def conditional (statement : Parser σ Node) (n : Nat) : Parser σ Node := do
  expect (.keyword .ifKw)
  let condition ← expression n
  expect (.punct .colon)
  let thenBody ← block statement n
  if (← kind) = .keyword .elseKw then
    advance
    expect (.punct .colon)
    let elseBody ← block statement n
    return .ifElse condition thenBody (some elseBody)
  else
    return .ifElse condition thenBody none

/-! ## Classes -/

def method (statement : Parser σ Node) (n : Nat) : Parser σ Method := do
  expect (.keyword .defKw)
  let name ← identifier
  let params ← parenthesized identifier n
  expect (.punct .colon)
  let body ← block statement n
  return ⟨name, params, body⟩

/-- The base class in a class header. It has to be declared. -/
def base (start : Nat) : Parser σ (Option Class) := do
  if (← kind) = .punct .leftParen then
    advance
    let name ← identifier
    expect (.punct .rightParen)
    match ← class? name with
    | some c => return some c
    | none => fail (.undeclaredBase name start)
  else
    return none

/-- A class definition. That its name is new and that its methods are distinct is asked at its end. -/
def classDefinition (statement : Parser σ Node) (n : Nat) : Parser σ Node := do
  let start ← line
  expect (.keyword .classKw)
  let name ← identifier
  let parent ← base start
  expect (.punct .colon)
  expect .newline
  expect .indent
  let methods ← whileKind (· = .keyword .defKw) (method statement n) n
  expect .dedent
  match ← class? name with
  | some _ => fail (.duplicateClass name start)
  | none =>
      match Class.build name parent methods with
      | .error cause => fail (.invalidClass cause start)
      | .ok c =>
          declare c
          return .classDef c

/-! ## Programs -/

def statement : Nat → Parser σ Node
  | 0 => exhausted
  | n + 1 => do
      match ← kind with
      | .keyword .classKw => classDefinition (statement n) (n + 1)
      | .keyword .ifKw => conditional (statement n) (n + 1)
      | _ =>
          let node ← simpleStatement (n + 1)
          expect .newline
          return node

/-- The statements up to the end of the input. -/
def statements (n : Nat) : Parser σ (List Node) :=
  whileKind (· ≠ .endOfInput) (statement n) n

end Offside.Parser
