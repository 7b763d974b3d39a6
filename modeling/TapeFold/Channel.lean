/-!
# Input and output

Input is a row of bytes that is read one byte at a time. Output is either collected in a buffer or
passed on to a stream, which remembers at which lengths it was flushed.
-/

namespace TapeFold

/-- The user broke off the run while it waited for input. -/
inductive Interrupt
  | interrupted
deriving DecidableEq

/-- Unread input. When `allowance` is given, that many reads succeed and the next one is
interrupted. -/
structure Input where
  rest : List UInt8
  allowance : Option Nat := none
deriving DecidableEq

namespace Input

def ofBytes (bytes : List UInt8) : Input := { rest := bytes }

/-- The next byte, or `none` at the end of the input. Reading at the end uses up allowance too. -/
def read : EStateM Interrupt Input (Option UInt8) := fun input =>
  if input.allowance = some 0 then .error .interrupted input
  else
    let allowance := input.allowance.map (· - 1)
    match input.rest with
    | [] => .ok none { input with allowance }
    | byte :: rest => .ok (some byte) { rest, allowance }

end Input

/-- Bytes passed on as they are written, and the lengths at which they were flushed. -/
structure Stream where
  written : Array UInt8 := #[]
  flushes : Array Nat := #[]
deriving DecidableEq

namespace Stream

def push (s : Stream) (byte : UInt8) : Stream :=
  { s with written := s.written.push byte }

def flush (s : Stream) : Stream :=
  { s with flushes := s.flushes.push s.written.size }

end Stream

/-- The byte that ends a line. -/
def newline : UInt8 := 10

/-- What a run has written: to `stream` if there is one, else to `buffer`. -/
structure Output where
  buffer : Array UInt8 := #[]
  stream : Option Stream := none
deriving DecidableEq

namespace Output

def buffered : Output := {}

def streaming : Output := { stream := some {} }

/-- A stream is flushed after each line. -/
def push (o : Output) (byte : UInt8) : Output :=
  match o with
  | ⟨buffer, none⟩ => ⟨buffer.push byte, none⟩
  | ⟨buffer, some s⟩ =>
    let s := s.push byte
    ⟨buffer, some (if byte = newline then s.flush else s)⟩

def flush (o : Output) : Output :=
  { o with stream := o.stream.map Stream.flush }

/-- All bytes written, wherever they went. -/
def bytes (o : Output) : Array UInt8 :=
  match o.stream with
  | none => o.buffer
  | some s => s.written

end Output

end TapeFold
