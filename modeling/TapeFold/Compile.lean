import TapeFold.Fold
import TapeFold.Bracket
import TapeFold.Marks

/-!
# Compilation

From symbols to a program: stretches of `+ - < >` fold into runs, every other symbol becomes an
instruction of its own, brackets are linked by index, and at the end loops are marked.
-/

namespace TapeFold

/-- A program on its way: the instructions so far, the open loops by index and position with the
innermost first, and the stretch being folded. -/
structure Draft where
  code : Array Instruction := #[]
  opened : List (Nat × Nat) := []
  stretch : Option Fold := none

namespace Draft

/-- Ends the stretch being folded. -/
def flush (d : Draft) : Draft :=
  match d with
  | ⟨code, opened, none⟩ => ⟨code, opened, none⟩
  | ⟨code, opened, some fold⟩ =>
    match fold.build with
    | some run => ⟨code.push run, opened, none⟩
    | none => ⟨code, opened, none⟩

def push (d : Draft) (i : Instruction) : Draft :=
  { d with code := d.code.push i }

/-- Adds the symbol at `position`. -/
def add (d : Draft) (position : Nat) : Symbol → Except BracketError Draft
  | .act a => .ok { d with stretch := some ((d.stretch.getD {}).feed a) }
  | .read => .ok (d.flush.push { kind := .read, source := "," })
  | .write => .ok (d.flush.push { kind := .write, source := "." })
  | .loopOpen =>
    let d := d.flush
    let opened := (d.code.size, position) :: d.opened
    .ok ({ d with opened }.push { kind := .loopOpen, source := "[" })
  | .loopClose =>
    let d := d.flush
    match matchingOpen? d.code with
    | none => .error (.unopened (some position))
    | some opening =>
      let closing := d.code.size
      let opened := d.opened.eraseP (·.1 == opening)
      .ok ({ d with
        code := d.code.modify opening (·.withJump (some closing))
        opened }.push { kind := .loopClose, jumpTarget := some opening, source := "]" })

/-- Adds symbols, the first of which stands at `position`. -/
def addAll (d : Draft) (position : Nat) : List Symbol → Except BracketError Draft
  | [] => .ok d
  | s :: symbols =>
    match d.add position s with
    | .ok d => d.addAll (position + 1) symbols
    | .error e => .error e

/-- The instructions, if no loop is open. -/
def finish (d : Draft) : Except BracketError (Array Instruction) :=
  match d.flush.opened.getLast? with
  | none => .ok d.flush.code
  | some (_, position) => .error (.unclosed position)

end Draft

namespace Program

/-- The instructions of `symbols`, with their jumps but without marks. -/
def link (symbols : List Symbol) : Except BracketError (Array Instruction) :=
  (Draft.addAll {} 0 symbols).bind Draft.finish

/-- The program of `symbols`. Scans are marked always, linear loops only if `linear` is set. -/
def ofSymbols (symbols : List Symbol) (linear : Bool) : Except BracketError Program :=
  (link symbols).map fun code =>
    let program := markScans { code }
    if linear then program.markLinear else program

/-- The program in a text, up to the first `!`. -/
def compile (text : String) (linear : Bool := true) : Except BracketError Program :=
  ofSymbols (Symbol.ofText text) linear

end Program

end TapeFold
