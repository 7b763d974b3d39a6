import TapeFold.Instruction

/-!
# Programs

A compiled program: its instructions and what was noticed about its loops.
-/

namespace TapeFold

/-- A loop that stays where it is but does not decrease its control cell. -/
structure Diagnostic where
  index : Nat
  controlDelta : Int
deriving DecidableEq

namespace Diagnostic

def message (d : Diagnostic) : String :=
  if 0 < d.controlDelta then "potential infinite loop: body increments its control cell"
  else "potential infinite loop: body never changes its control cell"

end Diagnostic

structure Program where
  code : Array Instruction
  diagnostics : List Diagnostic := []
deriving DecidableEq

/-- The instruction at `index`; a negative index counts from the end. -/
def fetch? (code : Array Instruction) (index : Int) : Option Instruction :=
  if 0 ≤ index then code[index.toNat]?
  else if index.natAbs ≤ code.size then code[code.size - index.natAbs]?
  else none

namespace Program

/-- The indices of the instructions that satisfy `p`, in order. -/
def indices (p : Instruction → Bool) (program : Program) : List Nat :=
  (program.code.toList.zipIdx.filter fun e => p e.1).map (·.2)

def linearLoops : Program → List Nat := indices Instruction.isLinear

def scanLoops : Program → List Nat := indices Instruction.isScan

end Program

end TapeFold
