import TapeFold.Tape
import TapeFold.Channel
import TapeFold.Instruction

/-!
# The machine

The state that a run works on: the tape, the input and output, the cursor, and the counters.
Compiled programs and the symbol-by-symbol reference share it, so that their tape, their bytes and
their step counts can be compared.
-/

namespace TapeFold

/-- Why a run stops before its end. Only code that no compilation produces can jump from a loop
instruction without a partner or look for an instruction where there is none. -/
inductive Fault
  | underflow (index : Int)
  | stepLimit (limit : Int)
  | interrupted
  | unlinked
  | outOfRange
deriving DecidableEq

namespace Fault

def message : Fault → String
  | underflow index => "tape access at index " ++ toString index ++ " is left of the first cell"
  | stepLimit limit => "step limit of " ++ toString limit ++ " exceeded"
  | interrupted => ""
  | unlinked => "loop instruction without a partner"
  | outOfRange => "list index out of range"

end Fault

/-- What the next step of a compiled program does: it executes the instruction at the cursor, or it
is in a loop that opens there, making one more pass by iteration or one more move of a scan. Such a
loop ends on a zero cell and goes on at `exit`. -/
inductive Focus
  | dispatch
  | iterate (body : Instruction) (exit : Option Int)
  | scan (step : Int) (exit : Option Int)
deriving DecidableEq

structure Machine where
  tape : Tape
  input : Input
  output : Output
  eofValue : Int
  maxSteps : Option Int
  cursor : Int := 0
  focus : Focus := .dispatch
  steps : Nat := 0
  linearEvaluations : Nat := 0
  fallbackPasses : Nat := 0
  scanPasses : Nat := 0
deriving DecidableEq

/-- Something done to a machine. A fault leaves the machine as it is then. -/
abbrev Execution := EStateM Fault Machine

namespace Machine

@[inline] def onTape {α : Type} (action : TapeAction α) : Execution α := fun m =>
  match action m.tape with
  | .ok v t => .ok v { m with tape := t }
  | .error (.leftOfFirst index) t => .error (.underflow index) { m with tape := t }

/-- Counts a step, and faults if that exceeds the limit. -/
@[inline] def tick : Execution Unit := fun m =>
  let m := { m with steps := m.steps + 1 }
  match m.maxSteps with
  | none => .ok () m
  | some limit => if limit < m.steps then .error (.stepLimit limit) m else .ok () m

/-- The next byte of the input, or `eofValue` after its end. -/
def read : Execution Int := fun m =>
  match m.input.read with
  | .ok (some byte) input => .ok byte.toNat { m with input }
  | .ok none input => .ok m.eofValue { m with input }
  | .error .interrupted input => .error .interrupted { m with input }

/-- The byte that a cell is written as. -/
def byteOf (value : Int) : UInt8 := UInt8.ofNat (value % 256).toNat

@[inline] def write (value : Int) : Execution Unit :=
  modify fun m => { m with output := m.output.push (byteOf value) }

@[inline] def advance : Execution Unit :=
  modify fun m => { m with cursor := m.cursor + 1 }

/-- Continues at `target`, which a loop instruction without partner lacks. -/
@[inline] def jump : Option Int → Execution Unit
  | some target => modify fun m => { m with cursor := target, focus := .dispatch }
  | none => throw .unlinked

/-- Stores the next input in the cell under the pointer. The input is consumed even if there is no
such cell. -/
@[inline] def readCell : Execution Unit := do
  let value ← read
  onTape (Tape.set value)

/-- Writes the cell under the pointer. -/
@[inline] def writeCell : Execution Unit := do
  write (← onTape Tape.get)

/-- How many repetitions of a counted step are certain to end a run, if the steps are limited. -/
def stepBound? (m : Machine) : Option Nat :=
  m.maxSteps.map fun (limit : Int) => (limit - (m.steps : Int)).toNat + 1

end Machine

/-- How a run has ended, or that it has not. -/
inductive Halt
  | finished
  | faulted (f : Fault)
  | unfinished
deriving DecidableEq

/-- The machine after a run, and how the run ended. -/
structure Ending where
  machine : Machine
  halt : Halt
deriving DecidableEq

namespace Ending

/-- What is done at the end of each run, however it ended: an output stream is flushed, and a loop
that was under way is left. A run that has not ended is left alone. -/
def close (e : Ending) : Ending :=
  match e.halt with
  | .unfinished => e
  | _ => { e with
      machine := { e.machine with output := e.machine.output.flush, focus := .dispatch } }

end Ending

/-- Repeats `step` at most `fuel` times, until it returns `false` or faults. -/
def Machine.iterate (step : Execution Bool) : (fuel : Nat) → Machine → Ending
  | 0, m => ⟨m, .unfinished⟩
  | fuel + 1, m =>
    match step m with
    | .ok true m => iterate step fuel m
    | .ok false m => ⟨m, .finished⟩
    | .error f m => ⟨m, .faulted f⟩

end TapeFold
