import TapeFold.Symbol
import TapeFold.Channel

/-!
# Program and input in one stream

A stream may hold a program and its input, with a `!` between them. A stream of bytes is cut after
the first such byte and its program part is text in Latin-1. The input part of a text is encoded in
UTF-8.
-/

namespace TapeFold.Source

/-- The text of bytes in Latin-1: each byte is the code of one character. -/
def latin1 (bytes : List UInt8) : String :=
  String.ofList (bytes.map Char.ofUInt8)

/-- The byte of `!`. -/
def sentinelByte : UInt8 := 33

/-- The part of `text` before the first `!`, and the bytes of the part after it. -/
def splitText (text : String) : String × List UInt8 :=
  let cs := text.toList
  (String.ofList (cs.takeWhile (· != sentinel)),
    ((cs.dropWhile (· != sentinel)).drop 1).flatMap String.utf8EncodeChar)

/-- The text of the bytes before the first `!`, and the bytes after it. -/
def splitBytes (bytes : List UInt8) : String × List UInt8 :=
  (latin1 (bytes.takeWhile (· != sentinelByte)), (bytes.dropWhile (· != sentinelByte)).drop 1)

theorem read_rest_length {input input' : Input} {byte : UInt8}
    (h : input.read = .ok (some byte) input') : input'.rest.length < input.rest.length := by
  unfold Input.read at h
  split at h
  · simp at h
  · cases hr : input.rest with
    | nil => simp [hr] at h
    | cons b r =>
      simp only [hr, EStateM.Result.ok.injEq] at h
      rw [← h.2]
      simp

/-- Reads bytes onto `read` until a `!` or the end of the input has been read. -/
def readBytes (read : Array UInt8) (input : Input) :
    EStateM.Result Interrupt Input (Array UInt8) :=
  match h : input.read with
  | .error e input' => .error e input'
  | .ok none input' => .ok read input'
  | .ok (some byte) input' =>
    have := read_rest_length h
    if byte = sentinelByte then .ok read input' else readBytes (read.push byte) input'
termination_by input.rest.length

/-- Reads a program byte by byte and leaves what follows its `!` unread. -/
def readProgram : EStateM Interrupt Input String := fun input =>
  match readBytes #[] input with
  | .ok bytes rest => .ok (latin1 bytes.toList) rest
  | .error e rest => .error e rest

end TapeFold.Source
