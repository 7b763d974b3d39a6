/-!
# The tape

A row of integer cells and a pointer into it. The tape grows to the right with zeros as cells are
addressed; a cell left of the first one cannot be addressed. What is reported of a tape, that its
size has been capped or has grown, is read off afterwards (`TapeFold.Journal`). Reporting is taken to
have no effect on the tape.
-/

namespace TapeFold

structure Tape where
  cells : Array Int
  pointer : Int := 0
deriving DecidableEq

/-- A cell left of the first one was addressed. -/
inductive Underflow
  | leftOfFirst (index : Int)
deriving DecidableEq

/-- Something done to a tape, which may fail and then says what became of the tape. -/
abbrev TapeAction := EStateM Underflow Tape

namespace Tape

def defaultSize : Int := 1024

/-- No tape starts with more cells than this; a larger one is reached by growth. -/
def maxInitialSize : Int := 1024 * 1024

/-- A tape of `size` zeros, within the bounds on the size of a new tape. -/
def blank (size : Int) : Tape where
  cells := Array.replicate (max 1 (min size maxInitialSize)).toNat 0

def size (t : Tape) : Nat := t.cells.size

/-- The tape with zeros added until it has a cell `index`. -/
@[inline] def grow (t : Tape) (index : Nat) : Tape :=
  if index < t.cells.size then t
  else { t with cells := t.cells ++ Array.replicate (index + 1 - t.cells.size) 0 }

@[simp] theorem pointer_grow (t : Tape) (index : Nat) : (t.grow index).pointer = t.pointer := by
  unfold grow
  split <;> rfl

@[simp] theorem size_cells_grow (t : Tape) (index : Nat) :
    (t.grow index).cells.size = max t.cells.size (index + 1) := by
  unfold grow
  split
  · omega
  · simp only [Array.size_append, Array.size_replicate]
    omega

/-- Growth is not seen through a look-up that takes a missing cell as zero. -/
theorem getD_cells_grow (t : Tape) (index k : Nat) :
    (t.grow index).cells.getD k 0 = t.cells.getD k 0 := by
  unfold grow
  split
  · rfl
  · simp only [Array.getD_eq_getD_getElem?, Array.getElem?_append, Array.getElem?_replicate]
    split
    · rfl
    · rw [Array.getElem?_eq_none (by omega)]
      split <;> rfl

/-- Makes the cell `index` addressable. -/
@[inline] def ensure (index : Int) : TapeAction Unit := fun t =>
  if index < 0 then .error (.leftOfFirst index) t else .ok () (t.grow index.toNat)

/-- The cell under the pointer. -/
@[inline] def get : TapeAction Int := do
  ensure (← EStateM.get).pointer
  let t ← EStateM.get
  return t.cells.getD t.pointer.toNat 0

@[inline] def set (value : Int) : TapeAction Unit := do
  ensure (← EStateM.get).pointer
  modify fun t => { t with cells := t.cells.setIfInBounds t.pointer.toNat value }

/-- Adds `delta` to the cell `position` cells right of the pointer. -/
@[inline] def add (position delta : Int) : TapeAction Unit := do
  ensure ((← EStateM.get).pointer + position)
  modify fun t =>
    { t with cells := t.cells.modify (t.pointer + position).toNat (· + delta) }

/-- Adds `factor` times each delta to the cells from `start` on. -/
def addScaled (cells : Array Int) (start : Nat) (factor : Int) : List Int → Array Int
  | [] => cells
  | d :: ds => addScaled (cells.modify start (· + factor * d)) (start + 1) factor ds

@[simp] theorem size_addScaled (cells : Array Int) (start : Nat) (factor : Int)
    (deltas : List Int) : (addScaled cells start factor deltas).size = cells.size := by
  induction deltas generalizing cells start with
  | nil => rfl
  | cons d ds ih => simp [addScaled, ih]

/-- The first cell that `apply` must not find left of the tape, if it does. -/
@[inline] def applyFault? (t : Tape) (deltas : List Int) (baseOffset : Int)
    (lowest : Option Int) : Option Int :=
  match lowest with
  | some l => if t.pointer + l < 0 then some (t.pointer + l) else start
  | none => start
where
  @[inline] start : Option Int :=
    if deltas ≠ [] ∧ t.pointer + baseOffset < 0 then some (t.pointer + baseOffset) else none

/-- Adds `factor * deltas[i]` to the cell at `pointer + baseOffset + i`. The position `lowest` is
only bound-checked. -/
@[inline] def apply (deltas : List Int) (baseOffset : Int) (factor : Int := 1)
    (lowest : Option Int := none) : TapeAction Unit := fun t =>
  match t.applyFault? deltas baseOffset lowest with
  | some index => .error (.leftOfFirst index) t
  | none =>
    if deltas = [] then .ok () t
    else
      let start := (t.pointer + baseOffset).toNat
      let t := t.grow (start + deltas.length - 1)
      .ok () { t with cells := addScaled t.cells start factor deltas }

/-- Moves the pointer; to the right, the cell that it comes to is made addressable. The pointer
stays where it has come to even if that fails. -/
@[inline] def shift (amount : Int) : TapeAction Unit := do
  modify fun t => { t with pointer := t.pointer + amount }
  if 0 < amount then ensure (← EStateM.get).pointer

/-- The cells that are not zero, by index, in order. -/
def nonzero (t : Tape) : List (Nat × Int) :=
  t.cells.toList.zipIdx.filterMap fun (v, i) => if v = 0 then none else some (i, v)

end Tape

end TapeFold
