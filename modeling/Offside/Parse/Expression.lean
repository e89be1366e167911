import Offside.Parse.Parser

/-!
# Expressions — the levels of precedence

This file defines the parsers of expressions, from the loosest operators to the tightest: `or`, `and`,
`not`, one comparison, sums, products, signs, and primaries with their method calls. Each takes the
parser of the expressions inside parentheses and an allowance of steps; `expression` ties the knot.
-/

namespace Offside.Parser

/-- The name under which the conversion to text is called. -/
def stringifyName : String := "str"

/-! ## Operators of each level -/

def orOp? : Kind → Option (Node → Node → Node)
  | .keyword .orKw => some (.logical .or)
  | _ => none

def andOp? : Kind → Option (Node → Node → Node)
  | .keyword .andKw => some (.logical .and)
  | _ => none

def relation? : Kind → Option Relation
  | .punct .less => some .less
  | .punct .lessEqual => some .lessEqual
  | .punct .greater => some .greater
  | .punct .greaterEqual => some .greaterEqual
  | .punct .equal => some .equal
  | .punct .notEqual => some .notEqual
  | _ => none

def sumOp? : Kind → Option (Node → Node → Node)
  | .punct .plus => some (.arithmetic .add)
  | .punct .minus => some (.arithmetic .sub)
  | _ => none

def productOp? : Kind → Option (Node → Node → Node)
  | .punct .star => some (.arithmetic .mul)
  | .punct .slash => some (.arithmetic .div)
  | _ => none

def sign? : Kind → Option Sign
  | .punct .plus => some .plus
  | .punct .minus => some .minus
  | _ => none

/-- The literal that a token is. -/
def literal? : Kind → Option Node
  | .integer n => some (.constant (.int n))
  | .string s => some (.constant (.str s))
  | .keyword .trueKw => some (.constant (.bool true))
  | .keyword .falseKw => some (.constant (.bool false))
  | .keyword .noneKw => some .none
  | _ => none

variable {σ : Type} [TokenSource σ]

/-! ## Paths and calls -/

/-- A name and the names after it, with dots between them. -/
def path (n : Nat) : Parser σ (String × List String) := do
  let first ← identifier
  let rest ← whileKind (· = .punct .dot) (do advance; identifier) n
  return (first, rest)

/-- The names of a path before its last one, and the last one. -/
def splitLast : String × List String → List String × String
  | (first, []) => ([], first)
  | (first, next :: rest) =>
      let (object, name) := splitLast (next, rest)
      (first :: object, name)

/-- What a call means: a method of the object at a path, a declared class, or the conversion to text.
The line is where the called name starts. -/
def buildCall (object : List String) (name : String) (args : List Node) (line : Nat) :
    Parser σ Node := do
  match object with
  | _ :: _ => return .call (.variable object) name args
  | [] =>
      match ← class? name with
      | some c => return .construct c args
      | none =>
          if name = stringifyName then
            match args with
            | [x] => return .stringify x
            | _ => fail (.stringifyArity args.length line)
          else
            fail (.notCallable name line)

/-- The method calls after a call or a parenthesis. -/
def methodCalls (inner : Parser σ Node) : Nat → Node → Parser σ Node
  | 0, _ => exhausted
  | n + 1, receiver => do
      if (← kind) = .punct .dot then
        advance
        let method ← identifier
        let args ← parenthesized inner n
        methodCalls inner n (.call receiver method args)
      else
        return receiver

/-- The arguments of a call and the method calls after it. -/
def callTail (inner : Parser σ Node) (n : Nat) (called : String × List String) (line : Nat) :
    Parser σ Node := do
  let args ← parenthesized inner n
  let (object, name) := splitLast called
  let call ← buildCall object name args line
  methodCalls inner n call

/-! ## Levels -/

/-- An expression in parentheses and the method calls after it. -/
def group (inner : Parser σ Node) (n : Nat) : Parser σ Node := do
  expect (.punct .leftParen)
  let node ← inner
  expect (.punct .rightParen)
  methodCalls inner n node

/-- A variable or, where arguments follow, a call. -/
def reference (inner : Parser σ Node) (n : Nat) : Parser σ Node := do
  let start ← line
  let called ← path n
  if (← kind) = .punct .leftParen then
    callTail inner n called start
  else
    return .variable (called.1 :: called.2)

def primary (inner : Parser σ Node) (n : Nat) : Parser σ Node := do
  match literal? (← kind) with
  | some node =>
      advance
      return node
  | none =>
      match ← kind with
      | .punct .leftParen => group inner n
      | .identifier _ => reference inner n
      | _ => unexpected .expression

def factor (inner : Parser σ Node) : Nat → Parser σ Node
  | 0 => exhausted
  | n + 1 => do
      match sign? (← kind) with
      | some sign =>
          advance
          let operand ← factor inner n
          return .signed sign operand
      | none => primary inner (n + 1)

def product (inner : Parser σ Node) (n : Nat) : Parser σ Node := do
  let first ← factor inner n
  leftChain (factor inner n) productOp? n first

def sum (inner : Parser σ Node) (n : Nat) : Parser σ Node := do
  let first ← product inner n
  leftChain (product inner n) sumOp? n first

/-- A comparison has at most one operator. -/
def comparison (inner : Parser σ Node) (n : Nat) : Parser σ Node := do
  let left ← sum inner n
  match relation? (← kind) with
  | some op =>
      advance
      let right ← sum inner n
      return .comparison op left right
  | none => return left

def inversion (inner : Parser σ Node) : Nat → Parser σ Node
  | 0 => exhausted
  | n + 1 => do
      if (← kind) = .keyword .notKw then
        advance
        let operand ← inversion inner n
        return .not operand
      else
        comparison inner (n + 1)

def conjunction (inner : Parser σ Node) (n : Nat) : Parser σ Node := do
  let first ← inversion inner n
  leftChain (inversion inner n) andOp? n first

def disjunction (inner : Parser σ Node) (n : Nat) : Parser σ Node := do
  let first ← conjunction inner n
  leftChain (conjunction inner n) orOp? n first

def expression : Nat → Parser σ Node
  | 0 => exhausted
  | n + 1 => disjunction (expression n) (n + 1)

end Offside.Parser
