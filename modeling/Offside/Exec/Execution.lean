import Offside.Exec.Eval
import Offside.Parse.Program

/-!
# Execution — whole programs

This file defines what running a program does: its statements in a new scope, up to the end or to a
return among them, and then one flush of the output, unless a statement failed.
-/

namespace Offside

/-- A depth of nesting that no program in memory reaches. -/
def amplyDeep : Nat := 0x10000000000

namespace Program

/-- Runs the statements and gives the scope that they leave. -/
def statementsRun (depth : Nat) (p : Program) : Run Scope := fun m =>
  match Exec.block (eval depth) p.statements ⟨.empty, m⟩ with
  | .ok _ f => .ok f.scope f.machine
  | .error (.returned value) f =>
      ((do .notice (.returnedEarly value.text); return f.scope) : Run Scope) f.machine
  | .error (.fault e) f => .error e f.machine

def run (depth : Nat) (p : Program) : Run Scope := do
  .notice (.running p.statements.length)
  let globals ← p.statementsRun depth
  .flush
  return globals

end Program

/-! ## Source texts -/

/-- Why a source text was not run to its end. -/
inductive Failure where
  | parse (e : ParseError)
  | run (f : Fault)
deriving DecidableEq, Repr

def Failure.message : Failure → String
  | parse e => e.message
  | run (.error e) => e.message
  | run .exhausted => "Nesting is too deep"

/-- Whether the failure came before any statement ran. -/
def Failure.isFrontend : Failure → Bool
  | parse _ => true
  | run _ => false

/-- What came of a source text: the global scope or the failure, and the machine after it. -/
structure Execution where
  outcome : Except Failure Scope
  machine : Machine

/-- Reads and runs a source text on a machine. -/
def execute (depth : Nat) (source : String) (m : Machine) : Execution :=
  let parsed := Program.read source
  let machine : Machine := { m with notices := m.notices ++ parsed.notices }
  match parsed.outcome with
  | .error e => ⟨.error (.parse e), machine⟩
  | .ok p =>
      match p.run depth machine with
      | .ok globals m => ⟨.ok globals, m⟩
      | .error f m => ⟨.error (.run f), m⟩

end Offside
