/-!
# Operators — what expressions are built with

This file defines the operators of the language and the words by which error messages call them.
-/

namespace Offside

inductive Arithmetic where
  | add | sub | mul | div
deriving DecidableEq, Repr

def Arithmetic.text : Arithmetic → String
  | add => "addition"
  | sub => "subtraction"
  | mul => "multiplication"
  | div => "division"

inductive Sign where
  | plus | minus
deriving DecidableEq, Repr

def Sign.text : Sign → String
  | plus => "unary plus"
  | minus => "negation"

inductive Connective where
  | and | or
deriving DecidableEq, Repr

inductive Relation where
  | less | lessEqual | greater | greaterEqual | equal | notEqual
deriving DecidableEq, Repr

namespace Relation

/-- The relation that holds exactly where this one does not. -/
def complement : Relation → Relation
  | less => greaterEqual
  | lessEqual => greater
  | greater => lessEqual
  | greaterEqual => less
  | equal => notEqual
  | notEqual => equal

end Relation

end Offside
