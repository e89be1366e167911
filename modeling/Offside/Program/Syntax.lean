import Offside.Program.Operator

/-!
# Syntax — programs, classes and the values in them

This file defines the tree of a program. A class is built while its definition is read, so a tree holds
classes where they are defined and where they are constructed, a class holds the bodies of its methods,
and a literal holds its value: the four types are one mutual family.
-/

namespace Offside

/-- Where the fields of an instance are. Every instance has a number of its own; the block of memory that
holds it is what its text shows, and two instances may come to have the same one. -/
structure Address where
  number : Nat
  block : Nat
deriving DecidableEq, Repr

mutual

/-- A value of the language. An instance is known by its class and its address in the store. -/
inductive Value where
  | none
  | int (n : Int64)
  | str (s : String)
  | bool (b : Bool)
  | cls (c : Class)
  | inst (c : Class) (address : Address)

/-- A statement or an expression. -/
inductive Node where
  | constant (value : Value)
  | none
  /-- A name, or a dotted path of names through the fields of instances. -/
  | variable (path : List String)
  | arithmetic (op : Arithmetic) (left right : Node)
  | signed (sign : Sign) (operand : Node)
  | not (operand : Node)
  | logical (op : Connective) (left right : Node)
  | comparison (op : Relation) (left right : Node)
  | assign (name : String) (value : Node)
  /-- A write to a field of the instance at a path. -/
  | setField (path : List String) (field : String) (value : Node)
  | block (body : List Node)
  | print (args : List Node)
  | call (receiver : Node) (method : String) (args : List Node)
  /-- The creation of an instance. -/
  | construct (c : Class) (args : List Node)
  /-- The conversion of a value to its text. -/
  | stringify (operand : Node)
  | ret (value : Node)
  | ifElse (condition thenBody : Node) (elseBody : Option Node)
  | classDef (c : Class)

structure Method where
  name : String
  params : List String
  body : Node

/-- A class with the methods that it defines itself, which have distinct names. -/
structure Class where
  name : String
  parent : Option Class
  methods : List Method

end

structure Program where
  statements : List Node

end Offside
