import Offside.Source.Position
import Offside.Text.Quoted

/-!
# Tokens — the words of the language

This file defines the keywords, the punctuation marks and the kinds of tokens, with the two texts that
each kind has: `spelling` is what an error message calls it, `report` is what the journal records.
-/

namespace Offside

/-! ## Keywords -/

inductive Keyword where
  | classKw | defKw | returnKw | printKw | ifKw | elseKw
  | andKw | orKw | notKw | trueKw | falseKw | noneKw
deriving DecidableEq, Repr

namespace Keyword

def all : List Keyword :=
  [classKw, defKw, returnKw, printKw, ifKw, elseKw, andKw, orKw, notKw, trueKw, falseKw, noneKw]

def text : Keyword → String
  | classKw => "class"
  | defKw => "def"
  | returnKw => "return"
  | printKw => "print"
  | ifKw => "if"
  | elseKw => "else"
  | andKw => "and"
  | orKw => "or"
  | notKw => "not"
  | trueKw => "True"
  | falseKw => "False"
  | noneKw => "None"

/-- The keyword that a word is, if it is one. -/
def ofText? (word : String) : Option Keyword :=
  all.find? fun k => k.text = word

def label : Keyword → String
  | classKw => "Class"
  | defKw => "Def"
  | returnKw => "Return"
  | printKw => "Print"
  | ifKw => "If"
  | elseKw => "Else"
  | andKw => "And"
  | orKw => "Or"
  | notKw => "Not"
  | trueKw => "True"
  | falseKw => "False"
  | noneKw => "None"

theorem ofText?_text (k : Keyword) : ofText? k.text = some k := by
  cases k <;> decide +kernel

end Keyword

/-! ## Punctuation -/

inductive Punct where
  | assign | plus | minus | star | slash
  | less | lessEqual | greater | greaterEqual | equal | notEqual
  | leftParen | rightParen | colon | comma | dot
deriving DecidableEq, Repr

namespace Punct

def text : Punct → String
  | assign => "="
  | plus => "+"
  | minus => "-"
  | star => "*"
  | slash => "/"
  | less => "<"
  | lessEqual => "<="
  | greater => ">"
  | greaterEqual => ">="
  | equal => "=="
  | notEqual => "!="
  | leftParen => "("
  | rightParen => ")"
  | colon => ":"
  | comma => ","
  | dot => "."

def label : Punct → String
  | assign => "Equal"
  | plus => "Plus"
  | minus => "Minus"
  | star => "Star"
  | slash => "Slash"
  | less => "Less"
  | lessEqual => "LessEqual"
  | greater => "Greater"
  | greaterEqual => "GreaterEqual"
  | equal => "EqualEqual"
  | notEqual => "NotEqual"
  | leftParen => "LParen"
  | rightParen => "RParen"
  | colon => "Colon"
  | comma => "Comma"
  | dot => "Dot"

/-- The mark of one character. -/
def single? : Char → Option Punct
  | '=' => some assign
  | '+' => some plus
  | '-' => some minus
  | '*' => some star
  | '/' => some slash
  | '<' => some less
  | '>' => some greater
  | '(' => some leftParen
  | ')' => some rightParen
  | ':' => some colon
  | ',' => some comma
  | '.' => some dot
  | _ => none

/-- The mark of two characters of which the second is an equals sign. -/
def withEquals? : Char → Option Punct
  | '=' => some equal
  | '<' => some lessEqual
  | '>' => some greaterEqual
  | '!' => some notEqual
  | _ => none

end Punct

/-! ## Kinds -/

inductive Kind where
  | identifier (name : String)
  | integer (value : Int64)
  | string (value : String)
  | keyword (k : Keyword)
  | punct (p : Punct)
  | newline
  | indent
  | dedent
  | endOfInput
deriving DecidableEq, Repr

namespace Kind

/-- A word is a keyword or else an identifier. -/
def ofWord (word : String) : Kind :=
  match Keyword.ofText? word with
  | some k => keyword k
  | none => identifier word

/-- What an error message calls a token of this kind. -/
def spelling : Kind → String
  | identifier name => s!"identifier '{name}'"
  | integer value => s!"integer {value.toInt}"
  | string value => s!"string {Text.quoted value}"
  | keyword k => s!"'{k.text}'"
  | punct p => s!"'{p.text}'"
  | newline => "newline"
  | indent => "indent"
  | dedent => "dedent"
  | endOfInput => "end of input"

/-- The name of the kind without what the token carries. -/
def label : Kind → String
  | identifier _ => "Identifier"
  | integer _ => "Integer"
  | string _ => "String"
  | keyword k => k.label
  | punct p => p.label
  | newline => "Newline"
  | indent => "Indent"
  | dedent => "Dedent"
  | endOfInput => "EOF"

/-- What the journal records of a token of this kind. -/
def report (k : Kind) : String :=
  match k with
  | identifier name => s!"{k.label}({Text.quoted name})"
  | integer value => s!"{k.label}({value.toInt})"
  | string value => s!"{k.label}({Text.quoted value})"
  | _ => k.label

end Kind

/-- A token is a kind and the place where it was read. -/
structure Token where
  kind : Kind
  place : Position
deriving DecidableEq, Repr

end Offside
