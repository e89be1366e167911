import Offside.Value.RuntimeError

/-!
# Classes — parameters, inheritance and how a class is built

This file defines the parameters that a caller of a method supplies, the search of a method up the chain
of parents, and the one way in which classes get built, which refuses two methods of one name.
-/

namespace Offside

/-- The name by which a method knows the instance that it was called on. -/
def receiverName : String := "self"

namespace Method

/-- Whether the parameter list starts with the receiver, which no caller supplies. -/
def takesReceiver (m : Method) : Bool :=
  m.params.head? == some receiverName

/-- The parameters that a caller supplies. -/
def explicitParams (m : Method) : List String :=
  if m.takesReceiver then m.params.tail else m.params

def arity (m : Method) : Nat :=
  m.explicitParams.length

/-- The first method of a list whose name is among given names or stands earlier in the list. -/
def firstRepeat? (seen : List String) : List Method → Option Method
  | [] => none
  | m :: ms => if m.name ∈ seen then some m else firstRepeat? (m.name :: seen) ms

end Method

namespace Class

/-! ## Building -/

/-- The class of given methods, whose names have to be distinct. -/
def build (name : String) (parent : Option Class) (methods : List Method) :
    Except RuntimeError Class :=
  match Method.firstRepeat? [] methods with
  | some m => .error (.duplicateMethod name m.name)
  | none => .ok ⟨name, parent, methods⟩

/-! ## Methods -/

/-- The method that a class defines itself. -/
def own? (c : Class) (name : String) : Option Method :=
  c.methods.find? (·.name == name)

/-- The method of the nearest class, from this one upward, that defines one of the name. -/
def method? : Class → String → Option Method
  | ⟨_, none, methods⟩, name => methods.find? (·.name == name)
  | ⟨_, some parent, methods⟩, name =>
      (methods.find? (·.name == name)).or (parent.method? name)

/-- Whether a call of the method with that many arguments is accepted. -/
def understands (c : Class) (name : String) (arguments : Nat) : Bool :=
  (c.method? name).any (·.arity == arguments)

/-- The class, its parent, and so on upward. -/
def lineage : Class → List Class
  | ⟨name, none, methods⟩ => [⟨name, none, methods⟩]
  | ⟨name, some parent, methods⟩ => ⟨name, some parent, methods⟩ :: parent.lineage

theorem method?_eq (c : Class) (name : String) :
    c.method? name = (c.own? name).or (c.parent.bind (·.method? name)) := by
  obtain ⟨_, parent, methods⟩ := c
  cases parent with
  | none => simp [method?, own?]
  | some p => simp [method?, own?]

end Class

end Offside
