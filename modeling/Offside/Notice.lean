import Offside.Token.Kind

/-!
# Notices — what a run reports to its journal

This file defines the events that reading and running a program record, in the order in which they
happen, and the two levels of detail at which a journal can be kept.
-/

namespace Offside

/-- How much detail a notice is. -/
inductive NoticeLevel where
  | debug | trace
deriving DecidableEq, Repr

inductive Notice where
  | read (token : Token)
  | declared (className : String) (parent : Option String)
  | running (statements : Nat)
  | returnedEarly (text : String)
  | creating (className : String)
  | calling (className method : String) (arguments : Nat)
deriving DecidableEq, Repr

namespace Notice

def level : Notice → NoticeLevel
  | read _ => .trace
  | _ => .debug

def message : Notice → String
  | read token => s!"token {token.kind.report} at {token.place.text}"
  | declared className parent =>
      let parentName := parent.getD "none"
      s!"declared class {className} (parent: {parentName})"
  | running statements => s!"running {statements} top-level statements"
  | returnedEarly text => s!"program returned early with {text}"
  | creating className => s!"creating instance of {className}"
  | calling className method arguments =>
      s!"calling {className}.{method} with {arguments} argument(s)"

end Notice

end Offside
