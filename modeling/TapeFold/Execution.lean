import TapeFold.Machine
import TapeFold.Program

/-!
# Execution of compiled code

A step first settles what there is to do, then counts itself, then acts. A linear loop is resolved
where it opens: if its control cell is a positive multiple of its factor, the body is applied once,
scaled by the number of passes; otherwise it is applied pass by pass until that cell is zero.

What is reported of a run, that a loop falls back to iteration and how the run has ended, is read off
its history (`TapeFold.Journal`). Reporting is taken to have no effect on the run; only a whole
invocation may fail over what it reports, at a number that is too long to be written
(`Event.isWritable`).
-/

namespace TapeFold.Machine

/-- Leaves a loop under way once its control cell is zero. Returns whether there is anything left to
do. -/
def settle (code : Array Instruction) : Execution Bool := do
  match (← get).focus with
  | .dispatch => pure ()
  | .iterate _ exit | .scan _ exit =>
    if (← onTape Tape.get) = 0 then jump exit
  return (← get).cursor < code.size

/-- Applies a run to the tape and moves on. -/
@[inline] def applyRun (i : Instruction) : Execution Unit := do
  onTape (Tape.apply i.deltas i.baseOffset 1 i.minOffset)
  onTape (Tape.shift i.netShift)
  advance

/-- Opens a linear loop whose control cell holds `value`. -/
def openLinear (loop body : Instruction) (factor value : Int) : Execution Unit := do
  if 0 < value ∧ value % factor = 0 then
    onTape (Tape.apply body.deltas body.baseOffset (value / factor) body.minOffset)
    modify fun m => { m with linearEvaluations := m.linearEvaluations + 1 }
    jump loop.jumpTarget
  else
    modify fun m => { m with focus := .iterate body loop.jumpTarget }

/-- Opens the loop at the cursor. -/
def openLoop (code : Array Instruction) (loop : Instruction) : Execution Unit := do
  let value ← onTape Tape.get
  if value = 0 then jump loop.jumpTarget
  else
    match loop.linearFactor, loop.scanStep with
    | some factor, _ =>
      match fetch? code ((← get).cursor + 1) with
      | some body => openLinear loop body factor value
      | none => throw .outOfRange
    | none, some step => modify fun m => { m with focus := .scan step loop.jumpTarget }
    | none, none => advance

def closeLoop (loop : Instruction) : Execution Unit := do
  if (← onTape Tape.get) ≠ 0 then jump loop.jumpTarget else advance

def execute (code : Array Instruction) (i : Instruction) : Execution Unit :=
  match i.kind with
  | .run => applyRun i
  | .loopOpen => openLoop code i
  | .loopClose => closeLoop i
  | .read => do readCell; advance
  | .write => do writeCell; advance

/-- Does what the focus says. -/
def act (code : Array Instruction) : Execution Unit := do
  match (← get).focus with
  | .dispatch =>
    match fetch? code (← get).cursor with
    | some i => execute code i
    | none => throw .outOfRange
  | .iterate body _ =>
    onTape (Tape.apply body.deltas body.baseOffset 1 body.minOffset)
    modify fun m => { m with fallbackPasses := m.fallbackPasses + 1 }
  | .scan step _ =>
    onTape (Tape.shift step)
    modify fun m => { m with scanPasses := m.scanPasses + 1 }

/-- One counted step, if there is anything left to do. -/
def step (code : Array Instruction) : Execution Bool := do
  if ← settle code then
    tick
    act code
    return true
  else
    return false

/-- Runs `code` from the cursor on. A run with a step limit takes as many steps as it needs; any
other is given `patience` steps. -/
def run (code : Array Instruction) (patience : Nat) (m : Machine) : Ending :=
  (iterate (step code) (m.stepBound?.getD patience) m).close

/-- What `view` shows at each counted step of a run, just before it is counted. -/
def history {α : Type} (view : Machine → α) (code : Array Instruction) :
    (fuel : Nat) → Machine → Array α → Array α
  | 0, _, seen => seen
  | fuel + 1, m, seen =>
    match settle code m with
    | .ok true m =>
      let seen := seen.push (view m)
      match (do tick; act code : Execution Unit) m with
      | .ok () m => history view code fuel m seen
      | .error _ _ => seen
    | _ => seen

/-- The cell under the pointer, if the tape has it now. -/
def visibleCell? (m : Machine) : Option Int :=
  if m.tape.pointer < 0 then none else m.tape.cells[m.tape.pointer.toNat]?

/-- The cursor, the pointer and the cell under it at each counted step of a run. -/
def trace (code : Array Instruction) (patience : Nat) (m : Machine) :
    Array (Int × Int × Option Int) :=
  history (fun m => (m.cursor, m.tape.pointer, m.visibleCell?)) code
    (m.stepBound?.getD patience) m #[]

end TapeFold.Machine
