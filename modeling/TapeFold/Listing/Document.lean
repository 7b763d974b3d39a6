import TapeFold.Program

/-!
# What a listing says

The content of a listing as a document of named sections, each a row of entries or a row of numbers.
The layouts for machines print such a document.
-/

namespace TapeFold.Listing

inductive Scalar
  | int (n : Int)
  | text (s : String)
deriving DecidableEq

inductive Value
  | scalar (s : Scalar)
  | numbers (ns : List Int)
deriving DecidableEq

/-- Named values, in the order in which they are printed. -/
abbrev Entry := List (String × Value)

inductive Section
  | entries (es : List Entry)
  | numbers (ns : List Int)
deriving DecidableEq

abbrev Document := List (String × Section)

def field (key : String) (n : Int) : String × Value := (key, .scalar (.int n))

def textField (key : String) (s : String) : String × Value := (key, .scalar (.text s))

def optionalField (key : String) : Option Int → Entry
  | none => []
  | some n => [field key n]

/-- The entry of the instruction at `index`. Only a run shows its source and its effect. -/
def instructionEntry (index : Nat) (i : Instruction) : Entry :=
  let run :=
    if i.kind = .run then
      [textField "source" i.source, ("deltas", .numbers i.deltas),
        field "base_offset" i.baseOffset, field "net_shift" i.netShift] ++
        optionalField "min_offset" i.minOffset
    else []
  [field "index" index, textField "kind" i.kind.name] ++ run ++
    optionalField "jump_target" i.jumpTarget ++ optionalField "linear_factor" i.linearFactor ++
    optionalField "scan_step" i.scanStep

def diagnosticEntry (d : Diagnostic) : Entry :=
  [field "index" d.index, field "control_delta" d.controlDelta, textField "message" d.message]

def document (p : Program) : Document :=
  [("instructions", .entries (p.code.toList.mapIdx instructionEntry)),
    ("linear_loops", .numbers (p.linearLoops.map Int.ofNat)),
    ("scan_loops", .numbers (p.scanLoops.map Int.ofNat)),
    ("diagnostics", .entries (p.diagnostics.map diagnosticEntry))]

end TapeFold.Listing
