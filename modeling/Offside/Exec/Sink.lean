/-!
# Sink — where a program writes

This file defines an output that may take a limited number of bytes and may refuse to be flushed. A write
that does not fit is cut at the limit, in the middle of a character if need be, and fails.
-/

namespace Offside

structure Sink where
  written : ByteArray
  /-- How many bytes are taken in all, if there is a limit. -/
  capacity : Option Nat
  /-- Whether flushing fails. -/
  stuck : Bool

namespace Sink

/-- A sink that takes everything. -/
def unlimited : Sink :=
  ⟨.empty, none, false⟩

/-- Whether so many more bytes fit. -/
def fits (s : Sink) (bytes : Nat) : Bool :=
  match s.capacity with
  | none => true
  | some n => s.written.size + bytes ≤ n

/-- Writes bytes, or as many as fit and then fails. The error is the reason. -/
def write (s : Sink) (bytes : ByteArray) : Except String Unit × Sink :=
  if s.fits bytes.size then
    (.ok (), { s with written := s.written ++ bytes })
  else
    let room := s.capacity.getD 0 - s.written.size
    (.error "sink full", { s with written := s.written ++ bytes.extract 0 room })

def flush (s : Sink) : Except String Unit :=
  if s.stuck then .error "flush failed" else .ok ()

end Sink

end Offside
