import Offside.Command

/-!
# Main — the command line program

This file reads the input that the arguments name and writes the report on it.
-/

namespace Offside

/-- The system's words for a failure, where they differ from those that come with it. -/
def systemWords (number : Nat) (details : String) : String :=
  match number with
  | 5 => "Input/output error"
  | 36 => "File name too long"
  | 40 => "Too many levels of symbolic links"
  | _ => details.capitalize

/-- The system's words for a failure and its number, which some calls give with its sign changed. -/
def systemReason (code : UInt32) (details : String) : String :=
  let number := min code.toNat (-code).toNat
  s!"{systemWords number details} (os error {number})"

def readingFailure : IO.Error → String
  | .noFileOrDirectory _ code details => systemReason code details
  | .inappropriateType _ code details => systemReason code details
  | .permissionDenied _ code details => systemReason code details
  | .invalidArgument _ code details => systemReason code details
  | .hardwareFault code details => systemReason code details
  | .noSuchThing _ code details => systemReason code details
  | .resourceExhausted _ code details => systemReason code details
  | .otherError code details => systemReason code details
  | e => toString e

def readInput (path? : Option String) : IO (Except String ByteArray) := do
  try
    match path? with
    | some path => return .ok (← IO.FS.readBinFile path)
    | none => return .ok (← (← IO.getStdin).readBinToEnd)
  catch e => return .error (readingFailure e)

/-- Blocks that follow each other, from a place as the system gives them: twelve hexadecimal digits, at
random. -/
def someSupply : IO (Nat → Nat) := do
  let bytes ← IO.getRandomBytes 4
  let origin := bytes.foldl (fun n b => 256 * n + b.toNat) 0x55 * 256
  return fun number => origin + number

def respond (args : List String) : IO Report := do
  match Invocation.ofArgs args with
  | .error e => return e.report
  | .ok i =>
      match ← readInput i.path? with
      | .error reason => return i.unreadable reason
      | .ok contents => return i.report amplyDeep (← someSupply) contents

end Offside

def main (args : List String) : IO UInt32 := do
  let report ← Offside.respond args
  (← IO.getStdout).write report.output
  (← IO.getStderr).putStr report.errors
  return report.exitCode
