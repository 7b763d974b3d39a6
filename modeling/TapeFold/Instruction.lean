/-!
# Instructions

A program is compiled to a flat row of instructions. A loop instruction names its partner by index,
so no instruction holds another. A run stands for a stretch of `+ - < >`: it adds `deltas[i]` to the
cell at `pointer + baseOffset + i`, then moves the pointer by `netShift`.
-/

namespace TapeFold

inductive Kind
  | run
  | loopOpen
  | loopClose
  | read
  | write
deriving DecidableEq

namespace Kind

/-- The name of a kind in listings. -/
def name : Kind → String
  | run => "run"
  | loopOpen => "loop_open"
  | loopClose => "loop_close"
  | read => "read"
  | write => "write"

/-- The word for a kind in the text of an instruction. -/
def text : Kind → String
  | run => "run"
  | loopOpen => "["
  | loopClose => "]"
  | read => ","
  | write => "."

end Kind

/-- One compiled step. `minOffset` is the leftmost cell that the symbols of a run touched, also when
the changes there cancelled out; a loop that a shortcut applies to carries a `linearFactor` or a
`scanStep`. -/
structure Instruction where
  kind : Kind
  deltas : List Int := []
  baseOffset : Int := 0
  netShift : Int := 0
  jumpTarget : Option Int := none
  linearFactor : Option Int := none
  scanStep : Option Int := none
  minOffset : Option Int := none
  source : String := ""
deriving DecidableEq

/-- A number that may be absent is written `None` when it is. -/
def optionalText : Option Int → String
  | none => "None"
  | some n => toString n

/-- Numbers between commas. -/
def commaText (ns : List Int) : String :=
  ", ".intercalate (ns.map toString)

/-- Why a row of fields is no instruction. -/
inductive InstructionError
  | factorNotPositive (factor : Int)
  | notCompacted (deltas : List Int)
  | scanStepZero
  | minOffsetRight (minOffset : Option Int) (baseOffset : Int)
deriving DecidableEq

namespace InstructionError

/-- A row of one number keeps a comma before its closing bracket. -/
def rowText : List Int → String
  | [n] => "(" ++ toString n ++ ",)"
  | ns => "(" ++ commaText ns ++ ")"

def message : InstructionError → String
  | factorNotPositive factor => "linear factor must be positive, got " ++ toString factor
  | notCompacted deltas => "deltas are not compacted: " ++ rowText deltas
  | scanStepZero => "scan step must be nonzero"
  | minOffsetRight minOffset baseOffset =>
    "min_offset " ++ optionalText minOffset ++ " is right of base_offset " ++ toString baseOffset

end InstructionError

namespace Instruction

/-- What every instruction satisfies: a factor is positive, a scan moves, and deltas have no zero at
either end and start at or right of the leftmost cell touched. -/
structure Valid (i : Instruction) : Prop where
  factor_pos : ∀ f, i.linearFactor = some f → 0 < f
  head_ne : ∀ h : i.deltas ≠ [], i.deltas.head h ≠ 0
  last_ne : ∀ h : i.deltas ≠ [], i.deltas.getLast h ≠ 0
  scanStep_ne : i.scanStep ≠ some 0
  minOffset_le : i.deltas ≠ [] → ∃ o, i.minOffset = some o ∧ o ≤ i.baseOffset

/-- The instruction itself, or the first reason why it is not valid. -/
def check (i : Instruction) : Except InstructionError Instruction :=
  if i.linearFactor.any (· ≤ 0) then
    .error (.factorNotPositive (i.linearFactor.getD 0))
  else if i.deltas.head? = some 0 ∨ i.deltas.getLast? = some 0 then
    .error (.notCompacted i.deltas)
  else if i.scanStep = some 0 then
    .error .scanStepZero
  else if i.deltas ≠ [] ∧ i.minOffset.all (i.baseOffset < ·) then
    .error (.minOffsetRight i.minOffset i.baseOffset)
  else
    .ok i

/-- A run with its leftmost touched cell at its first delta, unless `minOffset` says otherwise. -/
def run (deltas : List Int) (baseOffset netShift : Int) (source : String := "")
    (minOffset : Option Int := none) : Instruction where
  kind := .run
  deltas
  baseOffset
  netShift
  minOffset := minOffset.or (if deltas = [] then none else some baseOffset)
  source

def withJump (i : Instruction) (target : Option Int) : Instruction :=
  { i with jumpTarget := target }

def withFactor (i : Instruction) (factor : Option Int) : Instruction :=
  { i with linearFactor := factor }

def withScan (i : Instruction) (step : Option Int) : Instruction :=
  { i with scanStep := step }

def isLoop (i : Instruction) : Bool :=
  i.kind = .loopOpen ∨ i.kind = .loopClose

def isLinear (i : Instruction) : Bool := i.linearFactor.isSome

def isScan (i : Instruction) : Bool := i.scanStep.isSome

/-- The change to the cell `position` cells right of the pointer. -/
def deltaAt (i : Instruction) (position : Int) : Int :=
  if position < i.baseOffset then 0 else i.deltas.getD (position - i.baseOffset).toNat 0

/-- The change to the cell under the pointer at entry. -/
def controlDelta (i : Instruction) : Int := i.deltaAt 0

/-- The cells that change, by position relative to the pointer at entry, from left to right. -/
def effects (i : Instruction) : List (Int × Int) :=
  (i.deltas.mapIdx fun k d => (i.baseOffset + k, d)).filter fun e => e.2 != 0

def text (i : Instruction) : String :=
  let inner :=
    match i.kind with
    | .run =>
      "run, deltas=[" ++ commaText i.deltas ++ "], offset=" ++ toString i.baseOffset ++
        ", shift=" ++ toString i.netShift
    | .loopOpen | .loopClose =>
      i.kind.text ++ ", go=" ++ optionalText i.jumpTarget ++
        match i.scanStep, i.linearFactor with
        | some k, _ => ", scan=" ++ toString k
        | none, some f => ", linear=" ++ toString f
        | none, none => ""
    | .read | .write => i.kind.text
  "Instruction(" ++ inner ++ ")"

end Instruction

end TapeFold
