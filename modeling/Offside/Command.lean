import Offside.Exec.Execution

/-!
# Command line — options, input and reports

This file defines what the program does with its arguments and its input, without doing it: the
arguments name an input, and the contents of the input give a report of what to write and how to exit.
-/

namespace Offside

/-! ## Arguments -/

/-- What the arguments ask for. Without a path the program comes from standard input. -/
structure Invocation where
  path? : Option String
  dumpGlobals : Bool
deriving DecidableEq, Repr

inductive UsageError where
  | unknownOption (option : String)
  | secondFile
deriving DecidableEq, Repr

def UsageError.message : UsageError → String
  | unknownOption option => s!"Unknown option {option}"
  | secondFile => "Only one input file is supported"

namespace Invocation

/-- Takes one argument into account. -/
def add (i : Invocation) (arg : String) : Except UsageError Invocation :=
  if arg = "--dump-globals" then .ok { i with dumpGlobals := true }
  else if "--".isPrefixOf arg then .error (.unknownOption arg)
  else if i.path?.isSome then .error .secondFile
  else .ok { i with path? := some arg }

/-- The arguments count from the left, and so does what is wrong with them. -/
def ofArgs (args : List String) : Except UsageError Invocation :=
  args.foldlM add ⟨none, false⟩

/-- The name of the input in the report of a run. -/
def inputName (i : Invocation) : String :=
  i.path?.getD "<stdin>"

/-- The name of the input in the report of a reading. -/
def sourceName (i : Invocation) : String :=
  i.path?.getD "stdin"

end Invocation

/-! ## Reports -/

/-- What the program writes and how it exits. -/
structure Report where
  exitCode : UInt32
  output : ByteArray
  errors : String

/-- A cause with its number, which is set to the right of five columns. -/
def numberedCause (cause : String) (number : Nat) : String :=
  let digits := toString number
  String.ofList (List.replicate (5 - digits.length) ' ') ++ digits ++ ": " ++ cause ++ "\n"

/-- A failure and what caused it, one line each. Several causes are numbered. -/
def failureText (context : String) (causes : List String) : String :=
  let head := "Error: " ++ context ++ "\n"
  match causes with
  | [] => head
  | [cause] => head ++ "\nCaused by:\n    " ++ cause ++ "\n"
  | _ => head ++ "\nCaused by:\n" ++ String.join (causes.zipIdx.map fun c => numberedCause c.1 c.2)

/-- The causes of a failure, each the cause of the one before it. -/
def Failure.causes (f : Failure) : List String :=
  match f with
  | parse (.invalidClass cause _) => [f.message, cause.message]
  | _ => [f.message]

def UsageError.report (e : UsageError) : Report :=
  ⟨1, .empty, failureText e.message []⟩

namespace Invocation

/-- The report on an input that could not be read. -/
def unreadable (i : Invocation) (reason : String) : Report :=
  ⟨1, .empty, failureText ("Reading " ++ i.sourceName) [reason]⟩

/-- The report on an input of given contents. The depth bounds the nesting, and `supply` gives the blocks
of the instances. -/
def report (i : Invocation) (depth : Nat) (supply : Nat → Nat) (contents : ByteArray) : Report :=
  match String.fromUTF8? contents with
  | none => i.unreadable "stream did not contain valid UTF-8"
  | some source =>
      let execution := execute depth source (.writingTo .unlimited supply)
      match execution.outcome with
      | .ok globals =>
          ⟨0, execution.machine.sink.written, if i.dumpGlobals then globals.text else ""⟩
      | .error f =>
          ⟨1, execution.machine.sink.written, failureText ("Running " ++ i.inputName) f.causes⟩

end Invocation

end Offside
