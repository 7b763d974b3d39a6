import TapeFold.Symbol
import TapeFold.Instruction

/-!
# Folding a stretch of symbols

A stretch of `+ - < >` folds into one run. `Fold` follows a pointer over the row of changes made so
far; the row begins at `baseOffset` relative to the cell where the stretch was entered and grows at
both ends as the pointer moves.
-/

namespace TapeFold

/-- The changes of a stretch: `here` under the pointer, `left` of it with the nearest first, and
`right` of it. `minOffset` is the leftmost position at which a cell was changed. -/
structure Fold where
  left : List Int := []
  here : Int := 0
  right : List Int := []
  baseOffset : Int := 0
  minOffset : Option Int := none
  source : String := ""
deriving DecidableEq

/-- A text that names no act. -/
inductive FeedError
  | notRunSymbol (text : String)
deriving DecidableEq

/-- The act that a text names. Any other text that occurs in `+-` is taken as `-`. -/
def Act.ofText? (text : String) : Option Act :=
  if text = "+" then some .inc
  else if text = "" ∨ text = "-" ∨ text = "+-" then some .dec
  else if text = ">" then some .right
  else if text = "<" then some .left
  else none

namespace Fold

/-- The row of changes from left to right. -/
def slots (f : Fold) : List Int := f.left.reverse ++ f.here :: f.right

/-- The index of the pointer in the row. -/
def slot (f : Fold) : Nat := f.left.length

/-- The pointer relative to where the stretch was entered. -/
def position (f : Fold) : Int := f.slot + f.baseOffset

def change (f : Fold) (amount : Int) : Fold :=
  { f with
    here := f.here + amount
    minOffset := some (match f.minOffset with | none => f.position | some m => min m f.position) }

def moveRight (f : Fold) : Fold :=
  match f.right with
  | [] => { f with left := f.here :: f.left, here := 0 }
  | d :: ds => { f with left := f.here :: f.left, here := d, right := ds }

def moveLeft (f : Fold) : Fold :=
  match f.left with
  | [] => { f with here := 0, right := f.here :: f.right, baseOffset := f.baseOffset - 1 }
  | d :: ds => { f with left := ds, here := d, right := f.here :: f.right }

def apply (f : Fold) : Act → Fold
  | .inc => f.change 1
  | .dec => f.change (-1)
  | .right => f.moveRight
  | .left => f.moveLeft

def feed (f : Fold) (a : Act) : Fold :=
  { f with source := f.source.push a.toChar }.apply a

/-- Feeds the act that `text` names. The source keeps the text even if it names none. -/
def feedText (text : String) : EStateM FeedError Fold Unit := fun f =>
  let f := { f with source := f.source ++ text }
  match Act.ofText? text with
  | some a => .ok () (f.apply a)
  | none => .error (.notRunSymbol text) f

/-- The run of a stretch, without the zeros at either end of its row. A stretch that changes nothing
folds away, except that one which changed a cell left of its entry is kept so that the cell is still
bound-checked. -/
def build (f : Fold) : Option Instruction :=
  let row := (f.slots.reverse.dropWhile (· == 0)).reverse
  let zeros := row.takeWhile (· == 0)
  let deltas := row.dropWhile (· == 0)
  if deltas ≠ [] then
    some (.run deltas (f.baseOffset + zeros.length) f.position f.source f.minOffset)
  else if f.position = 0 ∧ ¬ f.minOffset.any (· < 0) then none
  else some (.run [] 0 f.position f.source f.minOffset)

end Fold

end TapeFold
