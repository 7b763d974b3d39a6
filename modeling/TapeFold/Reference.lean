import TapeFold.Machine
import TapeFold.Bracket

/-!
# The symbol-by-symbol reference

A program run one symbol at a time, with no folding and no shortcuts. A bracket that jumps goes to
its partner and then past it.
-/

namespace TapeFold.Reference

/-- Goes to the partner of the bracket at `position`. -/
@[inline] def jumpFrom (pairs : BracketPairs) (position : Nat) : Execution Unit :=
  modify fun m => { m with cursor := (pairs.getD position none).getD position }

def perform (pairs : BracketPairs) (position : Nat) : Symbol → Execution Unit
  | .act .inc => Machine.onTape (Tape.add 0 1)
  | .act .dec => Machine.onTape (Tape.add 0 (-1))
  | .act .right => Machine.onTape (Tape.shift 1)
  | .act .left => Machine.onTape (Tape.shift (-1))
  | .read => Machine.readCell
  | .write => Machine.writeCell
  | .loopOpen => do if (← Machine.onTape Tape.get) = 0 then jumpFrom pairs position
  | .loopClose => do if (← Machine.onTape Tape.get) ≠ 0 then jumpFrom pairs position

/-- One counted step, if there is a symbol left. -/
def step (symbols : Array Symbol) (pairs : BracketPairs) : Execution Bool := do
  let position := (← get).cursor.toNat
  match symbols[position]? with
  | none => return false
  | some symbol =>
    Machine.tick
    perform pairs position symbol
    Machine.advance
    return true

/-- Runs the program in `text` on a new machine. -/
def run (text : String) (patience : Nat) (m : Machine) : Except BracketError Ending :=
  let symbols := Symbol.ofText text
  (pairBrackets symbols).map fun pairs =>
    (m.iterate (step symbols.toArray pairs) (m.stepBound?.getD patience)).close

end TapeFold.Reference
