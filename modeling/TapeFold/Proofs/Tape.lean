import Mathlib.Logic.Basic
import TapeFold.Tape

/-!
# What the tape operations do

A tape is seen through its pointer, its size and `Tape.cell`, which is zero where there is no cell.
Two tapes with the same view are equal (`Tape.ext_cell`). Each operation gets its result in terms of
this view: it fails on an index left of the first cell, and otherwise it only touches what it
addresses.
-/

namespace TapeFold

section
variable {ε σ α β : Type} {x : EStateM ε σ α} {f : α → EStateM ε σ β} {s s' : σ} {a : α} {e : ε}

theorem bind_of_ok (h : x s = .ok a s') : (x >>= f) s = f a s' := by
  show EStateM.bind x f s = _
  rw [EStateM.bind, h]

theorem bind_of_error (h : x s = .error e s') : (x >>= f) s = .error e s' := by
  show EStateM.bind x f s = _
  rw [EStateM.bind, h]

end

namespace Tape

/-- The value of the cell at `k`, zero where the tape has no cell. -/
def cell (t : Tape) (k : Int) : Int := if k < 0 then 0 else t.cells.getD k.toNat 0

/-- The tape with its pointer moved and no cell added. -/
def moved (t : Tape) (amount : Int) : Tape := { t with pointer := t.pointer + amount }

/-- The tape with `value` under the pointer. -/
def put (t : Tape) (value : Int) : Tape :=
  { t.grow t.pointer.toNat with
    cells := (t.grow t.pointer.toNat).cells.setIfInBounds t.pointer.toNat value }

/-- The tape with `delta` added to the cell `index`. -/
def bump (t : Tape) (index : Nat) (delta : Int) : Tape :=
  { t.grow index with cells := (t.grow index).cells.modify index (· + delta) }

/-- The tape with `factor` times each delta added to the cells from `start` on. -/
def spread (t : Tape) (deltas : List Int) (start : Nat) (factor : Int) : Tape :=
  { t.grow (start + deltas.length - 1) with
    cells := addScaled (t.grow (start + deltas.length - 1)).cells start factor deltas }

variable {t u : Tape} {k : Int}

/-! ### The view -/

theorem cell_of_neg (h : k < 0) : t.cell k = 0 := if_pos h

theorem cell_of_nonneg (h : 0 ≤ k) : t.cell k = t.cells.getD k.toNat 0 := if_neg (by omega)

@[simp] theorem cell_natCast (n : Nat) : t.cell n = t.cells.getD n 0 := by
  rw [cell_of_nonneg (by omega), Int.toNat_natCast]

theorem ext_cell (hs : t.size = u.size) (hp : t.pointer = u.pointer)
    (hc : ∀ n : Nat, t.cell n = u.cell n) : t = u := by
  obtain ⟨cs, p⟩ := t
  obtain ⟨ds, q⟩ := u
  obtain rfl : p = q := hp
  congr 1
  refine Array.ext hs fun i hi hj => ?_
  have h := hc i
  simpa [Array.getElem?_eq_getElem hi, Array.getElem?_eq_getElem hj] using h

/-- A tape that is no longer than another with the same cells is a prefix of it, up to zeros. -/
theorem cells_eq_append_replicate (hs : t.size ≤ u.size) (hc : ∀ k, t.cell k = u.cell k) :
    u.cells = t.cells ++ Array.replicate (u.size - t.size) 0 := by
  unfold size at hs ⊢
  refine Array.ext (by simp only [Array.size_append, Array.size_replicate]; omega) fun i hi _ => ?_
  have h := hc i
  simp only [cell_natCast, Array.getD_eq_getD_getElem?, Array.getElem?_eq_getElem hi,
    Option.getD_some] at h
  rw [← h, Array.getElem_append]
  split
  · rw [Array.getElem?_eq_getElem ‹_›, Option.getD_some]
  · rw [Array.getElem?_eq_none (by omega), Array.getElem_replicate]
    rfl

theorem cell_of_size_le {n : Nat} (h : t.size ≤ n) : t.cell n = 0 := by
  have h' : t.cells.size ≤ n := h
  rw [cell_natCast, Array.getD_eq_getD_getElem?, Array.getElem?_eq_none h']
  rfl

/-! ### Growth and moves -/

@[simp] theorem size_grow (n : Nat) : (t.grow n).size = max t.size (n + 1) := size_cells_grow t n

@[simp] theorem cell_grow (n : Nat) : (t.grow n).cell k = t.cell k := by
  unfold cell
  rw [getD_cells_grow]

theorem grow_of_lt {n : Nat} (h : n < t.size) : t.grow n = t := if_pos h

@[simp] theorem grow_grow (n : Nat) : (t.grow n).grow n = t.grow n :=
  grow_of_lt (by rw [size_grow]; omega)

@[simp] theorem pointer_moved (a : Int) : (t.moved a).pointer = t.pointer + a := rfl

@[simp] theorem size_moved (a : Int) : (t.moved a).size = t.size := rfl

@[simp] theorem cell_moved (a : Int) : (t.moved a).cell k = t.cell k := rfl

@[simp] theorem moved_zero : t.moved 0 = t := by
  unfold moved
  rw [Int.add_zero]

/-! ### Single cells -/

@[simp] theorem pointer_put (v : Int) : (t.put v).pointer = t.pointer := pointer_grow t _

@[simp] theorem size_put (v : Int) : (t.put v).size = max t.size (t.pointer.toNat + 1) := by
  rw [← size_grow]
  exact Array.size_setIfInBounds

theorem cell_put (hp : 0 ≤ t.pointer) (v : Int) :
    (t.put v).cell k = if k = t.pointer then v else t.cell k := by
  rcases Int.lt_or_le k 0 with hk | hk
  · rw [cell_of_neg hk, cell_of_neg hk, if_neg (by omega)]
  · have hlt : t.pointer.toNat < (t.grow t.pointer.toNat).cells.size := by
      rw [size_cells_grow]; omega
    rw [← cell_grow (t := t) t.pointer.toNat, cell_of_nonneg hk, cell_of_nonneg hk]
    simp only [put, Array.getD_eq_getD_getElem?, Array.getElem?_setIfInBounds]
    by_cases h : k = t.pointer
    · rw [if_pos (by rw [h]), if_pos hlt, if_pos h, Option.getD_some]
    · rw [if_neg (by omega), if_neg h]

@[simp] theorem pointer_bump (n : Nat) (d : Int) : (t.bump n d).pointer = t.pointer :=
  pointer_grow t n

@[simp] theorem size_bump (n : Nat) (d : Int) : (t.bump n d).size = max t.size (n + 1) := by
  rw [← size_grow]
  exact Array.size_modify

theorem getD_modify (cells : Array Int) {n : Nat} (hn : n < cells.size) (d : Int) (k : Nat) :
    (cells.modify n (· + d)).getD k 0 = cells.getD k 0 + if k = n then d else 0 := by
  simp only [Array.getD_eq_getD_getElem?, Array.getElem?_modify]
  by_cases h : n = k
  · subst h
    simp only [if_pos, Array.getElem?_eq_getElem hn, Option.map_some, Option.getD_some]
  · rw [if_neg h, if_neg (Ne.symm h), Int.add_zero]

theorem cell_bump (n : Nat) (d : Int) :
    (t.bump n d).cell k = t.cell k + if k = n then d else 0 := by
  rcases Int.lt_or_le k 0 with hk | hk
  · rw [cell_of_neg hk, cell_of_neg hk, if_neg (by omega), Int.add_zero]
  · rw [← cell_grow (t := t) n, cell_of_nonneg hk, cell_of_nonneg hk, bump,
      getD_modify _ (by rw [size_cells_grow]; omega)]
    congr 1
    exact if_congr (by omega) rfl rfl

/-! ### Rows of cells -/

theorem getD_addScaled (cells : Array Int) (start : Nat) (f : Int) (ds : List Int)
    (h : start + ds.length ≤ cells.size) (k : Nat) :
    (addScaled cells start f ds).getD k 0 =
      cells.getD k 0 + f * if k < start then 0 else ds.getD (k - start) 0 := by
  induction ds generalizing cells start with
  | nil => simp [addScaled]
  | cons d ds ih =>
    rw [List.length_cons] at h
    rw [addScaled, ih _ _ (by rw [Array.size_modify]; omega), getD_modify _ (by omega)]
    rcases Nat.lt_trichotomy k start with hk | rfl | hk
    · simp [hk, Nat.ne_of_lt hk, Nat.lt_succ_of_lt hk]
    · simp
    · obtain ⟨j, rfl⟩ := Nat.exists_eq_add_of_lt hk
      have h₁ : start + j + 1 - (start + 1) = j := by omega
      have h₂ : start + j + 1 - start = j + 1 := by omega
      rw [if_neg (by omega), if_neg (by omega), if_neg (by omega), h₁, h₂, List.getD_cons_succ,
        Int.add_zero]

@[simp] theorem pointer_spread (ds : List Int) (n : Nat) (f : Int) :
    (t.spread ds n f).pointer = t.pointer := pointer_grow t _

theorem size_spread {ds : List Int} (hd : ds ≠ []) (n : Nat) (f : Int) :
    (t.spread ds n f).size = max t.size (n + ds.length) := by
  have hpos := List.length_pos_iff.2 hd
  show (addScaled _ _ _ _).size = _
  rw [size_addScaled, size_cells_grow]
  show max t.size _ = _
  omega

theorem cell_spread {ds : List Int} (hd : ds ≠ []) (n : Nat) (f : Int) :
    (t.spread ds n f).cell k = t.cell k + f * if k < n then 0 else ds.getD (k - n).toNat 0 := by
  rcases Int.lt_or_le k 0 with hk | hk
  · rw [cell_of_neg hk, cell_of_neg hk, if_pos (by omega), Int.mul_zero, Int.add_zero]
  · have hpos := List.length_pos_iff.2 hd
    rw [← cell_grow (t := t) (n + ds.length - 1), cell_of_nonneg hk, cell_of_nonneg hk, spread,
      getD_addScaled _ _ _ _ (by rw [size_cells_grow]; omega)]
    have h : (k - n).toNat = k.toNat - n := by omega
    rw [h]
    congr 2
    exact if_congr (by omega) rfl rfl

theorem spread_spread {ds : List Int} (hd : ds ≠ []) (n : Nat) (f g : Int) :
    (t.spread ds n f).spread ds n g = t.spread ds n (f + g) := by
  refine ext_cell ?_ (by simp only [pointer_spread]) fun i => ?_
  · simp only [size_spread hd]
    omega
  · simp only [cell_spread hd, Int.add_mul, Int.add_assoc]

/-! ### The operations -/

theorem ensure_of_neg (h : k < 0) : ensure k t = .error (.leftOfFirst k) t := if_pos h

theorem ensure_of_nonneg (h : 0 ≤ k) : ensure k t = .ok () (t.grow k.toNat) :=
  if_neg (Int.not_lt.2 h)

theorem get_of_neg (h : t.pointer < 0) : get t = .error (.leftOfFirst t.pointer) t :=
  (bind_of_ok rfl).trans (bind_of_error (ensure_of_neg h))

theorem get_of_nonneg (h : 0 ≤ t.pointer) :
    get t = .ok (t.cell t.pointer) (t.grow t.pointer.toNat) := by
  refine (bind_of_ok rfl).trans ((bind_of_ok (ensure_of_nonneg h)).trans ?_)
  rw [← cell_grow t.pointer.toNat, cell_of_nonneg h]
  show EStateM.Result.ok ((t.grow _).cells.getD (t.grow _).pointer.toNat 0) _ = _
  rw [pointer_grow]

theorem set_of_neg (h : t.pointer < 0) (v : Int) :
    set v t = .error (.leftOfFirst t.pointer) t :=
  (bind_of_ok rfl).trans (bind_of_error (ensure_of_neg h))

theorem set_of_nonneg (h : 0 ≤ t.pointer) (v : Int) : set v t = .ok () (t.put v) := by
  refine (bind_of_ok rfl).trans ((bind_of_ok (ensure_of_nonneg h)).trans ?_)
  refine congrArg (EStateM.Result.ok ()) ?_
  show { t.grow t.pointer.toNat with cells :=
    (t.grow t.pointer.toNat).cells.setIfInBounds (t.grow t.pointer.toNat).pointer.toNat v } = t.put v
  simp only [pointer_grow, put]

theorem add_of_neg {p : Int} (h : t.pointer + p < 0) (d : Int) :
    add p d t = .error (.leftOfFirst (t.pointer + p)) t :=
  (bind_of_ok rfl).trans (bind_of_error (ensure_of_neg h))

theorem add_of_nonneg {p : Int} (h : 0 ≤ t.pointer + p) (d : Int) :
    add p d t = .ok () (t.bump (t.pointer + p).toNat d) := by
  refine (bind_of_ok rfl).trans ((bind_of_ok (ensure_of_nonneg h)).trans ?_)
  refine congrArg (EStateM.Result.ok ()) ?_
  show { t.grow (t.pointer + p).toNat with
    cells := (t.grow (t.pointer + p).toNat).cells.modify
      ((t.grow (t.pointer + p).toNat).pointer + p).toNat (· + d) } = t.bump (t.pointer + p).toNat d
  simp only [pointer_grow, bump]

theorem shift_of_nonpos {a : Int} (h : a ≤ 0) : shift a t = .ok () (t.moved a) :=
  (bind_of_ok rfl).trans (congrFun (if_neg (Int.not_lt.2 h)) _)

theorem shift_of_pos {a : Int} (ha : 0 < a) (h : 0 ≤ t.pointer + a) :
    shift a t = .ok () ((t.moved a).grow (t.pointer + a).toNat) :=
  (bind_of_ok rfl).trans ((congrFun (if_pos ha) _).trans
    ((bind_of_ok rfl).trans (ensure_of_nonneg h)))

theorem shift_of_left {a : Int} (ha : 0 < a) (h : t.pointer + a < 0) :
    shift a t = .error (.leftOfFirst (t.pointer + a)) (t.moved a) :=
  (bind_of_ok rfl).trans ((congrFun (if_pos ha) _).trans
    ((bind_of_ok rfl).trans (ensure_of_neg h)))

theorem apply_of_fault {ds : List Int} {b i : Int} {low : Option Int} (f : Int)
    (h : t.applyFault? ds b low = some i) : apply ds b f low t = .error (.leftOfFirst i) t := by
  simp only [apply, h]

theorem apply_nil {b : Int} {low : Option Int} (f : Int) (h : t.applyFault? [] b low = none) :
    apply [] b f low t = .ok () t := by
  simp only [apply, h, if_pos]

theorem apply_of_ne_nil {ds : List Int} {b : Int} {low : Option Int} (f : Int) (hd : ds ≠ [])
    (h : t.applyFault? ds b low = none) :
    apply ds b f low t = .ok () (t.spread ds (t.pointer + b).toNat f) := by
  simp only [apply, h, if_neg hd]
  rfl

theorem applyFault?_eq_none_iff {ds : List Int} {b : Int} {low : Option Int} :
    t.applyFault? ds b low = none ↔
      (∀ l, low = some l → 0 ≤ t.pointer + l) ∧ (ds ≠ [] → 0 ≤ t.pointer + b) := by
  have hstart : applyFault?.start t ds b = none ↔ (ds ≠ [] → 0 ≤ t.pointer + b) := by
    unfold applyFault?.start
    by_cases hd : ds = [] <;> simp [hd]
  cases low with
  | none => simpa [applyFault?] using hstart
  | some l =>
    by_cases hl : t.pointer + l < 0
    · have hl' : ¬ 0 ≤ t.pointer + l := by omega
      simp [applyFault?, hl, hl']
    · have hl' : 0 ≤ t.pointer + l := by omega
      simp [applyFault?, hl, hl', hstart]

/-- A fault depends on the pointer alone. -/
theorem applyFault?_congr (hp : t.pointer = u.pointer) (ds : List Int) (b : Int)
    (low : Option Int) : t.applyFault? ds b low = u.applyFault? ds b low := by
  unfold applyFault? applyFault?.start
  rw [hp]

end Tape

end TapeFold
