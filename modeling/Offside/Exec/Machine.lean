import Offside.Exec.Sink
import Offside.Notice
import Offside.Value.Store

/-!
# Machine — what a running program changes

This file defines the state that all parts of a running program share and the steps that change it. A
step that fails keeps what was done before it.
-/

namespace Offside

structure Machine where
  store : Store
  sink : Sink
  notices : Array Notice

/-- A machine that has done nothing. Its instances will have the blocks of a supply that is given. -/
def Machine.writingTo (sink : Sink) (supply : Nat → Nat) : Machine :=
  ⟨.empty supply, sink, #[]⟩

/-- Why an evaluation stops: the program failed, or the depth allowed to it is used up. -/
inductive Fault where
  | error (e : RuntimeError)
  | exhausted
deriving DecidableEq, Repr

/-- Steps that change a machine. -/
abbrev Run := EStateM Fault Machine

namespace Run

def fail {α : Type} (e : RuntimeError) : Run α :=
  throw (.error e)

/-- What a step that needs no machine gives. -/
def ofExcept {α : Type} : Except RuntimeError α → Run α
  | .ok x => pure x
  | .error e => fail e

def notice (n : Notice) : Run Unit := fun m =>
  .ok () { m with notices := m.notices.push n }

/-- A new instance of a class, without fields. -/
def create (c : Class) : Run Value := fun m =>
  .ok (.inst c m.store.next) { m with store := m.store.allocate }

def setField (address : Address) (field : String) (value : Value) : Run Unit := fun m =>
  .ok () { m with store := m.store.setField address field value }

/-- Writes a text and a line end. -/
def writeLine (text : String) : Run Unit := fun m =>
  match m.sink.write (text ++ "\n").toUTF8 with
  | (.ok (), sink) => .ok () { m with sink := sink }
  | (.error reason, sink) => .error (.error (.output reason)) { m with sink := sink }

def flush : Run Unit := fun m =>
  match m.sink.flush with
  | .ok () => .ok () m
  | .error reason => .error (.error (.output reason)) m

end Run

end Offside
