import TapeFold.Program

/-!
# Marks on loops

A loop whose body is a single run may have a shortcut. If the run only moves the pointer, the loop
is a scan. If it does not move the pointer but decreases the control cell, the loop is linear, and
its factor is the amount by which each pass decreases that cell. Instructions that do not come of a
compilation are marked one by one (`Program.sweep`), and must be valid for it.
-/

namespace TapeFold.Program

/-- The body of the loop that opens at `index` and closes two instructions later, if it is a run. -/
def soleRun? (program : Program) (index : Nat) : Option Instruction := do
  let opening ← program.code[index]?
  let body ← program.code[index + 1]?
  guard (opening.kind = .loopOpen ∧ opening.jumpTarget = some (index + 2) ∧ body.kind = .run)
  return body

/-- The step of the scan that opens at `index`. -/
def scanStepAt? (program : Program) (index : Nat) : Option Int := do
  let body ← program.soleRun? index
  guard (body.deltas = [] ∧ body.minOffset = none ∧ body.netShift ≠ 0)
  return body.netShift

/-- What each pass of the loop that opens at `index` adds to its control cell, if the loop consists
of one run that stays where it is and reaches the control cell. -/
def controlDeltaAt? (program : Program) (index : Nat) : Option Int := do
  let body ← program.soleRun? index
  guard (body.netShift = 0 ∧ body.baseOffset ≤ 0)
  return body.controlDelta

/-- Marks the scans. -/
def markScans (program : Program) : Program :=
  { program with
    code := program.code.mapIdx fun index i =>
      match program.scanStepAt? index with
      | some step => i.withScan (some step)
      | none => i }

/-- Marks the linear loops, and notes the loops of that shape whose body does not decrease their
control cell. -/
def markLinear (program : Program) : Program where
  code := program.code.mapIdx fun index i =>
    match program.controlDeltaAt? index with
    | some delta => if delta < 0 then i.withFactor (some (-delta)) else i
    | none => i
  diagnostics := program.diagnostics ++
    (List.range program.code.size).filterMap fun index => do
      let delta ← program.controlDeltaAt? index
      guard (0 ≤ delta)
      return { index, controlDelta := delta }

inductive Pass
  | scan
  | linear
deriving DecidableEq

/-- Why a pass over arbitrary instructions breaks off. -/
inductive PassError
  | bodyMissing (index : Nat)
  | invalid (reason : InstructionError)
deriving DecidableEq

/-- Puts `i` into the place at `index`, if it passes its check. -/
def replace (program : Program) (index : Nat) (i : Instruction) : Except PassError Program :=
  match i.check with
  | .ok i => .ok { program with code := program.code.setIfInBounds index i }
  | .error reason => .error (.invalid reason)

/-- What a pass does at the instruction at `index`, in place. The warning that goes with a note is
left to the journal. -/
def visit (pass : Pass) (program : Program) (index : Nat) : Except PassError Program :=
  match program.code[index]? with
  | none => .ok program
  | some i =>
    if i.kind = .loopOpen ∧ i.jumpTarget = some (index + 2 : Nat) ∧
        program.code.size ≤ index + 1 then
      .error (.bodyMissing index)
    else
      match pass with
      | .scan =>
        match program.scanStepAt? index with
        | some step => program.replace index (i.withScan (some step))
        | none => .ok program
      | .linear =>
        match program.controlDeltaAt? index with
        | some delta =>
          if delta < 0 then
            program.replace index (i.withFactor (some (-delta)))
          else
            .ok { program with
              diagnostics := program.diagnostics ++ [{ index, controlDelta := delta }] }
        | none => .ok program

/-- A marking pass over arbitrary instructions, from the first to the last. -/
def sweep (program : Program) (pass : Pass) : Except PassError Program :=
  (List.range program.code.size).foldlM (visit pass) program

/-- What a marking pass leaves, if it does not break off. -/
def mark? (program : Program) (pass : Pass) : Option Program := (program.sweep pass).toOption

end TapeFold.Program
