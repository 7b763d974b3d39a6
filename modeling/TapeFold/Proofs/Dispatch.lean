import TapeFold.Proofs.Action
import TapeFold.Proofs.Stretch

/-!
# Steps at an instruction

`At code m k i` says that the machine `m` is about to execute `i`, which stands at `k`. What the step
makes of the machine is given for each kind of instruction, first for the tape alone where the
instruction is a run (`Machine.runOn`).
-/

namespace TapeFold

theorem Tape.cell_spread_row {t : Tape} {ds : List Int} {base : Int} (hd : ds ≠ [])
    (hb : 0 ≤ t.pointer + base) (f k : Int) :
    (t.spread ds (t.pointer + base).toNat f).cell k =
      t.cell k + f * rowAt ds base (k - t.pointer) := by
  rw [cell_spread hd, Int.toNat_of_nonneg hb]
  congr 2
  have h : (k - (t.pointer + base)).toNat = (k - t.pointer - base).toNat := by omega
  rw [rowAt, h]
  exact if_congr (by omega) rfl rfl

namespace Machine

variable {code : Array Instruction} {m m' : Machine} {i : Instruction} {t : Tape} {j target : Int}
  {k : Nat} {f : Fault}

/-! ### Runs on a tape -/

theorem runOn_of_fault (h : t.applyFault? i.deltas i.baseOffset i.minOffset = some j) :
    runOn i t = .error (.leftOfFirst j) t :=
  bind_of_error (Tape.apply_of_fault 1 h)

theorem runOn_of_ne_nil (hd : i.deltas ≠ [])
    (h : t.applyFault? i.deltas i.baseOffset i.minOffset = none) :
    runOn i t =
      Tape.shift i.netShift (t.spread i.deltas (t.pointer + i.baseOffset).toNat 1) :=
  bind_of_ok (Tape.apply_of_ne_nil 1 hd h)

theorem runOn_of_nil (hd : i.deltas = [])
    (h : t.applyFault? i.deltas i.baseOffset i.minOffset = none) :
    runOn i t = Tape.shift i.netShift t := by
  have ha : Tape.apply i.deltas i.baseOffset 1 i.minOffset t = .ok () t := by
    rw [hd] at h ⊢
    exact Tape.apply_nil 1 h
  exact bind_of_ok ha

theorem runOn_of_still (hs : i.netShift = 0) :
    runOn i t = Tape.apply i.deltas i.baseOffset 1 i.minOffset t := by
  match h : Tape.apply i.deltas i.baseOffset 1 i.minOffset t with
  | .ok () t' =>
    refine (bind_of_ok h).trans ?_
    rw [hs, Tape.shift_of_nonpos (Int.le_refl 0), Tape.moved_zero]
  | .error e t' => exact bind_of_error h

theorem runOn_of_move (hd : i.deltas = []) (hm : i.minOffset = none) :
    runOn i t = Tape.shift i.netShift t := by
  refine runOn_of_nil hd ?_
  rw [Tape.applyFault?_eq_none_iff]
  refine ⟨fun l hl => ?_, fun h => absurd hd h⟩
  rw [hm] at hl
  cases hl

/-! ### Steps -/

/-- The machine is about to execute `i`, which stands at `k`. -/
structure At (code : Array Instruction) (m : Machine) (k : Nat) (i : Instruction) : Prop where
  focus : m.focus = .dispatch
  cursor : m.cursor = k
  fetch : code[k]? = some i
  unlimited : m.maxSteps = none

/-- The machine after a step that looked at the cell under the pointer and went on at `target`. -/
def looked (m : Machine) (target : Int) : Machine :=
  { m with
    tape := m.tape.grow m.tape.pointer.toNat
    cursor := target
    focus := .dispatch
    steps := m.steps + 1 }

@[simp] theorem pointer_looked (m : Machine) (target : Int) :
    (m.looked target).tape.pointer = m.tape.pointer := Tape.pointer_grow _ _

@[simp] theorem cell_looked (m : Machine) (target q : Int) :
    (m.looked target).tape.cell q = m.tape.cell q := Tape.cell_grow _

theorem looked_looked (m : Machine) (j target : Int) :
    (m.looked j).looked target = { m with
      tape := m.tape.grow m.tape.pointer.toNat
      cursor := target, focus := .dispatch, steps := m.steps + 2 } := by
  have ht : (m.looked j).tape.grow (m.looked j).tape.pointer.toNat =
      m.tape.grow m.tape.pointer.toNat := by
    show (m.tape.grow _).grow (m.tape.grow _).pointer.toNat = _
    rw [Tape.pointer_grow, Tape.grow_grow]
  rw [looked, ht]
  rfl

namespace At
variable (h : At code m k i)
include h

theorem step_eq : step code m =
    match execute code i m.ticked with
    | .ok () m' => .ok true m'
    | .error f m' => .error f m' := by
  refine step_of_dispatch h.focus (by rw [h.cursor]; omega) ?_ h.unlimited
  rw [h.cursor]
  exact h.fetch

theorem settle : settle code m = .ok true m := by
  have hlt : k < code.size := (Array.getElem?_eq_some_iff.1 h.fetch).1
  rw [settle_of_dispatch h.focus, h.cursor, decide_eq_true (by omega)]

theorem act : act code m.ticked = execute code i m.ticked := by
  have hc : m.ticked.cursor = k := h.cursor
  refine act_of_dispatch h.focus ?_
  rw [fetch?, if_pos (by omega), hc]
  exact h.fetch

theorem next : ((k + 1 : Nat) : Int) = m.cursor + 1 := by
  rw [h.cursor]
  rfl

theorem step_of_ok (he : execute code i m.ticked = .ok () m') : step code m = .ok true m' := by
  rw [h.step_eq, he]

theorem stops_of_error (he : execute code i m.ticked = .error f m') :
    Stops (step code) m ⟨m', .faulted f⟩ :=
  .faulted (by rw [h.step_eq, he])

section
variable (hi : i.kind = .run)
include hi

theorem step_run (ht : runOn i m.tape = .ok () t) :
    step code m = .ok true { m with
      tape := t, cursor := (k + 1 : Nat), focus := .dispatch, steps := m.steps + 1 } := by
  have he : execute code i m.ticked = _ := (congrFun (by rw [execute, hi]) _).trans
    (applyRun_of_ok ht)
  rw [h.step_of_ok he, h.next, ← h.focus]
  rfl

theorem stops_run (ht : runOn i m.tape = .error (.leftOfFirst j) t) :
    Stops (step code) m
      ⟨{ m with tape := t, steps := m.steps + 1 }, .faulted (.underflow j)⟩ := by
  have he : execute code i m.ticked = _ := (congrFun (by rw [execute, hi]) _).trans
    (applyRun_of_error ht)
  exact h.stops_of_error he

end

section
variable (hi : i.kind = .loopOpen)
include hi

theorem stops_open_of_neg (hp : m.tape.pointer < 0) :
    Stops (step code) m ⟨m.ticked, .faulted (.underflow m.tape.pointer)⟩ := by
  have he : execute code i m.ticked = _ := (congrFun (by rw [execute, hi]) _).trans
    (openLoop_of_neg hp)
  exact h.stops_of_error he

theorem step_open_of_zero (ht : i.jumpTarget = some target) (hp : 0 ≤ m.tape.pointer)
    (hv : m.tape.cell m.tape.pointer = 0) : step code m = .ok true (m.looked target) := by
  have he : execute code i m.ticked = _ := (congrFun (by rw [execute, hi]) _).trans
    (openLoop_of_zero ht hp hv)
  exact h.step_of_ok he

theorem step_open_of_ne (hu : i.Unmarked) (hp : 0 ≤ m.tape.pointer)
    (hv : m.tape.cell m.tape.pointer ≠ 0) :
    step code m = .ok true (m.looked (k + 1 : Nat)) := by
  have he : execute code i m.ticked = _ := (congrFun (by rw [execute, hi]) _).trans
    (openLoop_of_unmarked hu hp hv)
  rw [h.step_of_ok he, looked, h.next, ← h.focus]
  rfl

end

section
variable (hi : i.kind = .loopClose)
include hi

theorem stops_close_of_neg (hp : m.tape.pointer < 0) :
    Stops (step code) m ⟨m.ticked, .faulted (.underflow m.tape.pointer)⟩ := by
  have he : execute code i m.ticked = _ := (congrFun (by rw [execute, hi]) _).trans
    (closeLoop_of_neg hp)
  exact h.stops_of_error he

theorem step_close_of_zero (hp : 0 ≤ m.tape.pointer) (hv : m.tape.cell m.tape.pointer = 0) :
    step code m = .ok true (m.looked (k + 1 : Nat)) := by
  have he : execute code i m.ticked = _ := (congrFun (by rw [execute, hi]) _).trans
    (closeLoop_of_zero hp hv)
  rw [h.step_of_ok he, looked, h.next, ← h.focus]
  rfl

theorem step_close_of_ne (ht : i.jumpTarget = some target) (hp : 0 ≤ m.tape.pointer)
    (hv : m.tape.cell m.tape.pointer ≠ 0) : step code m = .ok true (m.looked target) := by
  have he : execute code i m.ticked = _ := (congrFun (by rw [execute, hi]) _).trans
    (closeLoop_of_ne_zero ht hp hv)
  exact h.step_of_ok he

end

end At

end Machine

end TapeFold
