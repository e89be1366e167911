import Offside.Program.Class
import Offside.Token.Kind

/-!
# Phrase — derivation trees of the grammar

This file defines the grammar of the language by its derivation trees.  A symbol of the grammar is a
type of trees, and each production is a constructor:

* `Phrase.kinds d` are the token kinds that the tree `d` derives;
* `Phrase.meaning d` is what the tree stands for, read from left to right with the classes that are
  complete so far.  It is undefined where a context condition fails.

Repetition `{ s }`, options `[ s ]` and lists in parentheses are symbols built from a symbol, so that
the productions read as they are written in extended Backus–Naur form.
-/

namespace Offside
namespace Grammar

/-! ## Terminals -/

/-- The levels whose operators group from the left. -/
inductive Level where
  | or | and | sum | product
deriving DecidableEq, Repr

/-- The operators of a level. -/
inductive Joint : Level → Type where
  | or : Joint .or
  | and : Joint .and
  | plus : Joint .sum
  | minus : Joint .sum
  | times : Joint .product
  | over : Joint .product
deriving DecidableEq, Repr

namespace Joint

def kind {l : Level} : Joint l → Kind
  | .or => .keyword .orKw
  | .and => .keyword .andKw
  | .plus => .punct .plus
  | .minus => .punct .minus
  | .times => .punct .star
  | .over => .punct .slash

def node {l : Level} : Joint l → Node → Node → Node
  | .or => .logical .or
  | .and => .logical .and
  | .plus => .arithmetic .add
  | .minus => .arithmetic .sub
  | .times => .arithmetic .mul
  | .over => .arithmetic .div

theorem kind_ne_endOfInput {l : Level} (j : Joint l) : j.kind ≠ .endOfInput := by
  cases j <;> nofun

end Joint

def relationMark : Relation → Punct
  | .less => .less
  | .lessEqual => .lessEqual
  | .greater => .greater
  | .greaterEqual => .greaterEqual
  | .equal => .equal
  | .notEqual => .notEqual

def signMark : Sign → Punct
  | .plus => .plus
  | .minus => .minus

inductive Literal where
  | integer (n : Int64)
  | string (s : String)
  | truth (b : Bool)
  | none

namespace Literal

def kind : Literal → Kind
  | integer n => .integer n
  | string s => .string s
  | truth true => .keyword .trueKw
  | truth false => .keyword .falseKw
  | none => .keyword .noneKw

theorem kind_ne_endOfInput (v : Literal) : v.kind ≠ .endOfInput := by
  cases v with
  | truth b => cases b <;> nofun
  | _ => nofun

def node : Literal → Node
  | integer n => .constant (.int n)
  | string s => .constant (.str s)
  | truth b => .constant (.bool b)
  | none => .none

end Literal

/-! ## Symbols -/

/-- The kinds of expressions, from the loosest operators to the tightest. -/
inductive Rung where
  | chain (l : Level) | inversion | comparison | factor | primary
deriving DecidableEq, Repr

/-- What stands between the operators of a level. -/
def Level.operand : Level → Rung
  | .or => .chain .and
  | .and => .inversion
  | .sum => .chain .product
  | .product => .factor

inductive Symbol where
  | name
  | path
  /-- Any number of phrases, `{ s }`. -/
  | many (s : Symbol)
  /-- A phrase or nothing, `[ s ]`. -/
  | option (s : Symbol)
  /-- A phrase behind a punctuation mark. -/
  | after (p : Punct) (s : Symbol)
  /-- Phrases between parentheses, with commas between them. -/
  | list (s : Symbol)
  | expr (r : Rung)
  | link (l : Level)
  | relation
  | application
  | call
  | simple
  | block
  | statement
  | alternative
  | base
  | method
deriving DecidableEq, Repr

namespace Symbol

/-- An expression without restrictions. -/
abbrev expression : Symbol := .expr (.chain .or)

/-- What the phrases of a symbol stand for. -/
abbrev Meaning : Symbol → Type
  | .name => String
  | .path => String × List String
  | .many s => List s.Meaning
  | .option s => Option s.Meaning
  | .after _ s => s.Meaning
  | .list s => List s.Meaning
  | .expr _ => Node
  | .link _ => Node → Node
  | .relation => Node → Node
  | .application => List Node × List (Node → Node)
  | .call => Node → Node
  | .simple => Node
  | .block => Node
  | .statement => Node
  | .alternative => Node
  | .base => Class
  | .method => Method

end Symbol

/-! ## Productions -/

inductive Phrase : Symbol → Type where
  | name (n : String) : Phrase .name
  /-- `path ::= name { "." name }` -/
  | path (first : Phrase .name) (rest : Phrase (.many (.after .dot .name))) : Phrase .path
  | done {s : Symbol} : Phrase (.many s)
  | more {s : Symbol} (x : Phrase s) (xs : Phrase (.many s)) : Phrase (.many s)
  | absent {s : Symbol} : Phrase (.option s)
  | present {s : Symbol} (x : Phrase s) : Phrase (.option s)
  | after (p : Punct) {s : Symbol} (x : Phrase s) : Phrase (.after p s)
  /-- `list s ::= "(" ")"` -/
  | noItems {s : Symbol} : Phrase (.list s)
  /-- `list s ::= "(" s { "," s } ")"` -/
  | items {s : Symbol} (first : Phrase s) (rest : Phrase (.many (.after .comma s))) :
      Phrase (.list s)
  /-- `or ::= and { "or" and }`, `and ::= inversion { "and" inversion }`,
  `sum ::= product { ("+" | "-") product }`, `product ::= factor { ("*" | "/") factor }` -/
  | chain {l : Level} (first : Phrase (.expr l.operand)) (rest : Phrase (.many (.link l))) :
      Phrase (.expr (.chain l))
  | link {l : Level} (j : Joint l) (right : Phrase (.expr l.operand)) : Phrase (.link l)
  /-- `inversion ::= "not" inversion` -/
  | not (x : Phrase (.expr .inversion)) : Phrase (.expr .inversion)
  /-- `inversion ::= comparison` -/
  | compared (x : Phrase (.expr .comparison)) : Phrase (.expr .inversion)
  /-- `comparison ::= sum [ relation sum ]` -/
  | comparison (left : Phrase (.expr (.chain .sum))) (right : Phrase (.option .relation)) :
      Phrase (.expr .comparison)
  | relation (op : Relation) (right : Phrase (.expr (.chain .sum))) : Phrase .relation
  /-- `factor ::= ("+" | "-") factor` -/
  | signed (sign : Sign) (x : Phrase (.expr .factor)) : Phrase (.expr .factor)
  /-- `factor ::= primary` -/
  | unsigned (x : Phrase (.expr .primary)) : Phrase (.expr .factor)
  | literal (v : Literal) : Phrase (.expr .primary)
  /-- `primary ::= path [ application ]` -/
  | reference (p : Phrase .path) (applied : Phrase (.option .application)) :
      Phrase (.expr .primary)
  /-- `primary ::= "(" expression ")" { call }` -/
  | group (x : Phrase .expression) (calls : Phrase (.many .call)) : Phrase (.expr .primary)
  /-- `application ::= list expression { call }` -/
  | application (args : Phrase (.list .expression)) (calls : Phrase (.many .call)) :
      Phrase .application
  /-- `call ::= "." name list expression` -/
  | call (name : Phrase .name) (args : Phrase (.list .expression)) : Phrase .call
  /-- `simple ::= "return" expression` -/
  | ret (x : Phrase .expression) : Phrase .simple
  /-- `simple ::= "print" [ list expression ]` -/
  | print (args : Phrase (.option (.list .expression))) : Phrase .simple
  /-- `simple ::= path "=" expression` -/
  | assign (target : Phrase .path) (value : Phrase .expression) : Phrase .simple
  /-- `simple ::= path application` -/
  | apply (callee : Phrase .path) (applied : Phrase .application) : Phrase .simple
  /-- `block ::= NEWLINE INDENT { statement } DEDENT` -/
  | block (body : Phrase (.many .statement)) : Phrase .block
  /-- `statement ::= simple NEWLINE` -/
  | simple (x : Phrase .simple) : Phrase .statement
  /-- `statement ::= "if" expression ":" block [ alternative ]` -/
  | conditional (condition : Phrase .expression) (thenBody : Phrase .block)
      (elseBody : Phrase (.option .alternative)) : Phrase .statement
  /-- `alternative ::= "else" ":" block` -/
  | alternative (body : Phrase .block) : Phrase .alternative
  /-- `statement ::= "class" name [ base ] ":" NEWLINE INDENT { method } DEDENT` -/
  | classDefinition (name : Phrase .name) (parent : Phrase (.option .base))
      (methods : Phrase (.many .method)) : Phrase .statement
  /-- `base ::= "(" name ")"` -/
  | base (name : Phrase .name) : Phrase .base
  /-- `method ::= "def" name list name ":" block` -/
  | method (name : Phrase .name) (params : Phrase (.list .name)) (body : Phrase .block) :
      Phrase .method

namespace Phrase

/-! ## The tokens of a tree -/

@[simp] def kinds {s : Symbol} : Phrase s → List Kind
  | .name n => [.identifier n]
  | .path first rest => first.kinds ++ rest.kinds
  | .done => []
  | .more x xs => x.kinds ++ xs.kinds
  | .absent => []
  | .present x => x.kinds
  | .after p x => .punct p :: x.kinds
  | .noItems => [.punct .leftParen, .punct .rightParen]
  | .items first rest =>
      .punct .leftParen :: first.kinds ++ rest.kinds ++ [.punct .rightParen]
  | .chain first rest => first.kinds ++ rest.kinds
  | .link j right => j.kind :: right.kinds
  | .not x => .keyword .notKw :: x.kinds
  | .compared x => x.kinds
  | .comparison left right => left.kinds ++ right.kinds
  | .relation op right => .punct (relationMark op) :: right.kinds
  | .signed sign x => .punct (signMark sign) :: x.kinds
  | .unsigned x => x.kinds
  | .literal v => [v.kind]
  | .reference p applied => p.kinds ++ applied.kinds
  | .group x calls => .punct .leftParen :: x.kinds ++ .punct .rightParen :: calls.kinds
  | .application args calls => args.kinds ++ calls.kinds
  | .call m args => .punct .dot :: m.kinds ++ args.kinds
  | .ret x => .keyword .returnKw :: x.kinds
  | .print args => .keyword .printKw :: args.kinds
  | .assign target value => target.kinds ++ .punct .assign :: value.kinds
  | .apply callee applied => callee.kinds ++ applied.kinds
  | .block body => .newline :: .indent :: body.kinds ++ [.dedent]
  | .simple x => x.kinds ++ [.newline]
  | .conditional condition thenBody elseBody =>
      .keyword .ifKw :: condition.kinds ++ .punct .colon :: thenBody.kinds ++ elseBody.kinds
  | .alternative body => .keyword .elseKw :: .punct .colon :: body.kinds
  | .classDefinition n parent methods =>
      .keyword .classKw :: n.kinds ++ parent.kinds
        ++ .punct .colon :: .newline :: .indent :: methods.kinds ++ [.dedent]
  | .base n => .punct .leftParen :: n.kinds ++ [.punct .rightParen]
  | .method n params body =>
      .keyword .defKw :: n.kinds ++ params.kinds ++ .punct .colon :: body.kinds

end Phrase

/-! ## The meaning of a tree -/

/-- What is read with the classes that are complete so far, the latest first. Undefined where a context
condition fails. -/
abbrev Reading := StateT (List Class) Option

namespace Reading

/-- The class of a name. Its definition has to be complete. -/
def declared (name : String) : Reading Class := fun classes =>
  (classes.find? (·.name = name)).map (·, classes)

/-- A class definition at its end. The name has to be new, and the methods distinct. -/
def declare (name : String) (parent : Option Class) (methods : List Method) : Reading Node :=
  fun classes =>
    if (∀ c ∈ classes, c.name ≠ name) ∧ (methods.map (·.name)).Nodup then
      some (.classDef ⟨name, parent, methods⟩, ⟨name, parent, methods⟩ :: classes)
    else
      none

/-- The call of a path. A name by itself has to name a class that is complete, or else be `str` with one
argument. -/
def callee (object : List String) (name : String) (args : List Node) : Reading Node :=
  fun classes =>
    match object, classes.find? (·.name = name) with
    | _ :: _, _ => some (.call (.variable object) name args, classes)
    | [], some c => some (.construct c args, classes)
    | [], none =>
        match args with
        | [x] => if name = "str" then some (.stringify x, classes) else none
        | _ => none

end Reading

/-- The names of a path before its last one. -/
def object (p : String × List String) : List String :=
  (p.1 :: p.2).dropLast

/-- The last name of a path. -/
def lastName (p : String × List String) : String :=
  p.2.getLastD p.1

/-- A write to a variable or, where the path has a dot, to a field. -/
def assignment (p : String × List String) (value : Node) : Node :=
  if object p = [] then .assign (lastName p) value else .setField (object p) (lastName p) value

/-- Continues a node from the left by links or calls. -/
def applyAll (x : Node) (fs : List (Node → Node)) : Node :=
  fs.foldl (fun y f => f y) x

namespace Phrase

@[simp] def meaning {s : Symbol} : Phrase s → Reading s.Meaning
  | .name n => pure n
  | .path first rest => do
      let first ← first.meaning
      let rest ← rest.meaning
      return (first, rest)
  | .done => pure []
  | .more x xs => do
      let x ← x.meaning
      let xs ← xs.meaning
      return x :: xs
  | .absent => pure none
  | .present x => do
      let x ← x.meaning
      return some x
  | .after _ x => x.meaning
  | .noItems => pure []
  | .items first rest => do
      let first ← first.meaning
      let rest ← rest.meaning
      return first :: rest
  | .chain first rest => do
      let first ← first.meaning
      let links ← rest.meaning
      return applyAll first links
  | .link j right => do
      let right ← right.meaning
      return fun left => j.node left right
  | .not x => do
      let x ← x.meaning
      return .not x
  | .compared x => x.meaning
  | .comparison left right => do
      let left ← left.meaning
      let right ← right.meaning
      return right.getD id left
  | .relation op right => do
      let right ← right.meaning
      return fun left => .comparison op left right
  | .signed sign x => do
      let x ← x.meaning
      return .signed sign x
  | .unsigned x => x.meaning
  | .literal v => pure v.node
  | .reference p applied => do
      let p ← p.meaning
      match ← applied.meaning with
      | some (args, calls) =>
          let x ← Reading.callee (object p) (lastName p) args
          return applyAll x calls
      | none => return .variable (p.1 :: p.2)
  | .group x calls => do
      let x ← x.meaning
      let calls ← calls.meaning
      return applyAll x calls
  | .application args calls => do
      let args ← args.meaning
      let calls ← calls.meaning
      return (args, calls)
  | .call m args => do
      let m ← m.meaning
      let args ← args.meaning
      return fun receiver => .call receiver m args
  | .ret x => do
      let x ← x.meaning
      return .ret x
  | .print args => do
      let args ← args.meaning
      return .print (args.getD [])
  | .assign target value => do
      let target ← target.meaning
      let value ← value.meaning
      return assignment target value
  | .apply callee applied => do
      let p ← callee.meaning
      let (args, calls) ← applied.meaning
      let x ← Reading.callee (object p) (lastName p) args
      return applyAll x calls
  | .block body => do
      let body ← body.meaning
      return .block body
  | .simple x => x.meaning
  | .conditional condition thenBody elseBody => do
      let condition ← condition.meaning
      let thenBody ← thenBody.meaning
      let elseBody ← elseBody.meaning
      return .ifElse condition thenBody elseBody
  | .alternative body => body.meaning
  | .classDefinition n parent methods => do
      let n ← n.meaning
      let parent ← parent.meaning
      let methods ← methods.meaning
      Reading.declare n parent methods
  | .base n => do
      let n ← n.meaning
      Reading.declared n
  | .method n params body => do
      let n ← n.meaning
      let params ← params.meaning
      let body ← body.meaning
      return ⟨n, params, body⟩

end Phrase

end Grammar
end Offside
