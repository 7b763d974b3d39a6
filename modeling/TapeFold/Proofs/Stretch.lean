import Mathlib.Data.List.TakeWhile
import TapeFold.Fold

/-!
# What a stretch of acts does

A list of acts moves the pointer by `movement`, changes the cell at `q` by `change q` and changes
cells at the positions `touched`. Folding the list and building a run keeps just that
(`Fold.build_eq_some`, `Fold.build_eq_none`).
-/

namespace TapeFold

namespace Act

/-- What an act adds to the cell under the pointer. -/
def amount : Act → Int
  | inc => 1
  | dec => -1
  | left => 0
  | right => 0

/-- How far an act moves the pointer. -/
def offset : Act → Int
  | inc => 0
  | dec => 0
  | left => -1
  | right => 1

/-- The net movement of the pointer. -/
def movement : List Act → Int
  | [] => 0
  | a :: w => a.offset + movement w

/-- The net change of the cell at `q` by acts that start at `p`. -/
def change (q : Int) : (p : Int) → List Act → Int
  | _, [] => 0
  | p, a :: w => (if q = p then a.amount else 0) + change q (p + a.offset) w

/-- The positions at which acts that start at `p` change a cell. -/
def touched : (p : Int) → List Act → List Int
  | _, [] => []
  | p, a :: w =>
    if a.amount = 0 then touched (p + a.offset) w else p :: touched (p + a.offset) w

variable {a : Act} {p q d : Int} {w : List Act}

theorem touched_cons_of_amount (h : a.amount ≠ 0) :
    touched p (a :: w) = p :: touched (p + a.offset) w := if_neg h

theorem touched_cons_of_move (h : a.amount = 0) :
    touched p (a :: w) = touched (p + a.offset) w := if_pos h

theorem mem_touched_of_change_ne (h : change q p w ≠ 0) : q ∈ touched p w := by
  induction w generalizing p with
  | nil => exact absurd rfl h
  | cons a w ih =>
    rw [change] at h
    by_cases ha : a.amount = 0
    · rw [touched_cons_of_move ha]
      refine ih fun h' => h ?_
      simp [ha, h']
    · rw [touched_cons_of_amount ha, List.mem_cons]
      by_cases hq : q = p
      · exact .inl hq
      · refine .inr (ih fun h' => h ?_)
        rw [if_neg hq, h']
        rfl

theorem change_add (q p d : Int) (w : List Act) : change (q + d) (p + d) w = change q p w := by
  induction w generalizing p with
  | nil => rfl
  | cons a w ih =>
    rw [change, change, Int.add_right_comm p, ih]
    congr 1
    exact if_congr (by omega) rfl rfl

theorem touched_add (p d : Int) (w : List Act) : touched (p + d) w = (touched p w).map (· + d) := by
  induction w generalizing p with
  | nil => rfl
  | cons a w ih =>
    by_cases ha : a.amount = 0
    · rw [touched_cons_of_move ha, touched_cons_of_move ha, Int.add_right_comm p, ih]
    · rw [touched_cons_of_amount ha, touched_cons_of_amount ha, Int.add_right_comm p, ih]
      rfl

end Act

/-! ### Rows of changes -/

/-- The change at `q` in a row of changes that begins at `base`. -/
def rowAt (row : List Int) (base q : Int) : Int :=
  if q < base then 0 else row.getD (q - base).toNat 0

section
variable {row : List Int} {base q : Int}

theorem rowAt_of_lt (h : q < base) : rowAt row base q = 0 := if_pos h

theorem rowAt_of_le (h : base ≤ q) : rowAt row base q = row.getD (q - base).toNat 0 :=
  if_neg (by omega)

@[simp] theorem rowAt_nil : rowAt [] base q = 0 := by
  simp [rowAt]

theorem Instruction.deltaAt_eq (i : Instruction) (q : Int) :
    i.deltaAt q = rowAt i.deltas i.baseOffset q := rfl

theorem rowAt_cons (x : Int) :
    rowAt (x :: row) base q = if q = base then x else rowAt row (base + 1) q := by
  rcases Int.lt_trichotomy q base with h | rfl | h
  · rw [rowAt_of_lt h, if_neg (by omega), rowAt_of_lt (by omega)]
  · rw [rowAt_of_le (Int.le_refl q), if_pos rfl, Int.sub_self]
    rfl
  · have h' : (q - base).toNat = (q - (base + 1)).toNat + 1 := by omega
    rw [if_neg (by omega), rowAt_of_le (by omega), rowAt_of_le (by omega), h', List.getD_cons_succ]

theorem rowAt_append (l : List Int) :
    rowAt (l ++ row) base q =
      if q < base + l.length then rowAt l base q else rowAt row (base + l.length) q := by
  induction l generalizing base with
  | nil =>
    rw [List.nil_append, List.length_nil, Int.natCast_zero, Int.add_zero]
    split
    · rw [rowAt_of_lt ‹_›, rowAt_nil]
    · rfl
  | cons x l ih =>
    rw [List.cons_append, rowAt_cons, rowAt_cons, ih, List.length_cons, Int.natCast_succ]
    by_cases h : q = base
    · rw [if_pos h, if_pos (by omega), if_pos h]
    · have h' : base + 1 + (l.length : Int) = base + ((l.length : Int) + 1) := by omega
      rw [if_neg h, if_neg h, h']

theorem rowAt_replicate (n : Nat) : rowAt (List.replicate n 0) base q = 0 := by
  induction n generalizing base with
  | zero => exact rowAt_nil
  | succ n ih => rw [List.replicate_succ, rowAt_cons, ih, ite_self]

theorem rowAt_append_replicate (n : Nat) :
    rowAt (row ++ List.replicate n 0) base q = rowAt row base q := by
  rw [rowAt_append]
  split
  · rfl
  · rw [rowAt_replicate, rowAt_of_le (by omega), List.getD_eq_getElem?_getD,
      List.getElem?_eq_none (by omega)]
    rfl

theorem rowAt_replicate_append (n : Nat) :
    rowAt (List.replicate n 0 ++ row) base q = rowAt row (base + n) q := by
  rw [rowAt_append, List.length_replicate, rowAt_replicate]
  split
  · rw [rowAt_of_lt ‹_›]
  · rfl

theorem rowAt_add (l r : List Int) (x d : Int) :
    rowAt (l ++ (x + d) :: r) base q =
      rowAt (l ++ x :: r) base q + if q = base + l.length then d else 0 := by
  rw [rowAt_append, rowAt_append, rowAt_cons, rowAt_cons]
  rcases Int.lt_trichotomy q (base + l.length) with h | h | h
  · rw [if_pos h, if_pos h, if_neg (by omega), Int.add_zero]
  · have h₁ : ¬ q < base + l.length := by omega
    simp only [if_neg h₁, if_pos h]
  · have h₁ : ¬ q < base + l.length := by omega
    have h₂ : ¬ q = base + l.length := by omega
    simp only [if_neg h₁, if_neg h₂, Int.add_zero]

end

theorem takeWhile_zero (l : List Int) :
    l.takeWhile (· == 0) = List.replicate (l.takeWhile (· == 0)).length 0 := by
  refine List.eq_replicate_of_mem fun x hx => ?_
  simpa using List.mem_takeWhile_imp hx

/-- A row without the zeros at its end. -/
def trimEnd (l : List Int) : List Int := (l.reverse.dropWhile (· == 0)).reverse

theorem exists_eq_trimEnd_append (l : List Int) :
    ∃ n, l = trimEnd l ++ List.replicate n 0 := by
  refine ⟨(l.reverse.takeWhile (· == 0)).length, ?_⟩
  have h := congrArg List.reverse (List.takeWhile_append_dropWhile (p := (· == 0)) (l := l.reverse))
  rw [List.reverse_append, List.reverse_reverse, takeWhile_zero, List.reverse_replicate] at h
  exact h.symm

theorem getLast?_trimEnd (l : List Int) : (trimEnd l).getLast? ≠ some 0 := by
  intro h
  rw [trimEnd, List.getLast?_reverse] at h
  have h' := List.head?_dropWhile_not (· == 0) l.reverse
  rw [h] at h'
  simp at h'

/-! ### Folding -/

namespace Fold

variable {f : Fold} {w : List Act} {q x : Int}

/-- The change at `q` of what has been folded. -/
def changeAt (f : Fold) (q : Int) : Int := rowAt f.slots f.baseOffset q

/-- The fold of a whole stretch. -/
def ofActs (w : List Act) : Fold := w.foldl feed {}

theorem position_feed (f : Fold) (a : Act) : (f.feed a).position = f.position + a.offset := by
  obtain ⟨left, here, right, base, low, source⟩ := f
  cases a with
  | inc => exact (Int.add_zero _).symm
  | dec => exact (Int.add_zero _).symm
  | left =>
    cases left with
    | nil => simp only [feed, apply, moveLeft, position, slot, Act.offset]; omega
    | cons d ds =>
      simp only [feed, apply, moveLeft, position, slot, Act.offset, List.length_cons]; omega
  | right =>
    cases right <;>
      simp only [feed, apply, moveRight, position, slot, Act.offset, List.length_cons] <;> omega

theorem changeAt_feed (f : Fold) (a : Act) (q : Int) :
    (f.feed a).changeAt q = f.changeAt q + if q = f.position then a.amount else 0 := by
  obtain ⟨left, here, right, base, low, source⟩ := f
  have hslot : (left.reverse.length : Int) = left.length := by rw [List.length_reverse]
  have hadd (d : Int) : rowAt (left.reverse ++ (here + d) :: right) base q =
      rowAt (left.reverse ++ here :: right) base q +
        if q = (left.length : Int) + base then d else 0 := by
    rw [rowAt_add, hslot, Int.add_comm base]
  cases a with
  | inc => exact hadd 1
  | dec => exact hadd (-1)
  | left =>
    simp only [Act.amount, ite_self, Int.add_zero]
    cases left with
    | nil =>
      simp only [changeAt, slots, feed, apply, moveLeft, List.reverse_nil, List.nil_append]
      rw [rowAt_cons, Int.sub_add_cancel]
      split
      · rw [rowAt_of_lt (by omega)]
      · rfl
    | cons d ds => simp [changeAt, slots, feed, apply, moveLeft]
  | right =>
    simp only [Act.amount, ite_self, Int.add_zero]
    cases right with
    | nil =>
      have h : rowAt (left.reverse ++ [here] ++ List.replicate 1 0) base q =
          rowAt (left.reverse ++ [here]) base q := rowAt_append_replicate 1
      simpa [changeAt, slots, feed, apply, moveRight] using h
    | cons d ds => simp [changeAt, slots, feed, apply, moveRight]

/-- A position left of `x` has been touched before or is touched by the act. -/
theorem minOffset_feed (f : Fold) (a : Act) (x : Int) :
    (∃ m, (f.feed a).minOffset = some m ∧ m < x) ↔
      (∃ m, f.minOffset = some m ∧ m < x) ∨ a.amount ≠ 0 ∧ f.position < x := by
  have hchange (d : Int) : (∃ m, (f.change d).minOffset = some m ∧ m < x) ↔
      (∃ m, f.minOffset = some m ∧ m < x) ∨ f.position < x := by
    cases h : f.minOffset with
    | none => simp [change, h]
    | some m =>
      simp only [change, h, Option.some.injEq, exists_eq_left']
      omega
  cases a with
  | inc =>
    have h := hchange 1
    simpa [Act.amount, feed, apply, change, position, slot] using h
  | dec =>
    have h := hchange (-1)
    simpa [Act.amount, feed, apply, change, position, slot] using h
  | left =>
    have h : (f.feed .left).minOffset = f.minOffset := by
      simp only [feed, apply, moveLeft]
      split <;> rfl
    simp [h, Act.amount]
  | right =>
    have h : (f.feed .right).minOffset = f.minOffset := by
      simp only [feed, apply, moveRight]
      split <;> rfl
    simp [h, Act.amount]

theorem position_foldl (f : Fold) (w : List Act) :
    (w.foldl feed f).position = f.position + Act.movement w := by
  induction w generalizing f with
  | nil => exact (Int.add_zero _).symm
  | cons a w ih => rw [List.foldl_cons, ih, position_feed, Act.movement, Int.add_assoc]

theorem changeAt_foldl (f : Fold) (w : List Act) (q : Int) :
    (w.foldl feed f).changeAt q = f.changeAt q + Act.change q f.position w := by
  induction w generalizing f with
  | nil => exact (Int.add_zero _).symm
  | cons a w ih =>
    rw [List.foldl_cons, ih, changeAt_feed, position_feed, Act.change, Int.add_assoc]

theorem minOffset_foldl (f : Fold) (w : List Act) (x : Int) :
    (∃ m, (w.foldl feed f).minOffset = some m ∧ m < x) ↔
      (∃ m, f.minOffset = some m ∧ m < x) ∨ ∃ q ∈ Act.touched f.position w, q < x := by
  induction w generalizing f with
  | nil => simp [Act.touched]
  | cons a w ih =>
    rw [List.foldl_cons, ih, minOffset_feed, position_feed, or_assoc]
    by_cases ha : a.amount = 0
    · simp [ha, Act.touched_cons_of_move ha]
    · simp [ha, Act.touched_cons_of_amount ha]

@[simp] theorem position_ofActs (w : List Act) : (ofActs w).position = Act.movement w := by
  rw [ofActs, position_foldl]
  exact Int.zero_add _

theorem changeAt_ofActs (w : List Act) (q : Int) :
    (ofActs w).changeAt q = Act.change q 0 w := by
  have h : Fold.changeAt {} q = 0 := rowAt_replicate 1
  rw [ofActs, changeAt_foldl, h, Int.zero_add]
  rfl

theorem minOffset_ofActs (w : List Act) (x : Int) :
    (∃ m, (ofActs w).minOffset = some m ∧ m < x) ↔ ∃ q ∈ Act.touched 0 w, q < x := by
  rw [ofActs, minOffset_foldl]
  simp [position, slot]

/-- The row of changes between its zeros. -/
def trimmed (f : Fold) : List Int := (trimEnd f.slots).dropWhile (· == 0)

/-- The position at which `trimmed` begins. -/
def trimmedBase (f : Fold) : Int :=
  f.baseOffset + ((trimEnd f.slots).takeWhile (· == 0)).length

theorem rowAt_trimmed (f : Fold) (q : Int) : rowAt f.trimmed f.trimmedBase q = f.changeAt q := by
  obtain ⟨n, hn⟩ := exists_eq_trimEnd_append f.slots
  have hsplit := List.takeWhile_append_dropWhile (p := (· == 0)) (l := trimEnd f.slots)
  rw [takeWhile_zero] at hsplit
  rw [changeAt, hn, rowAt_append_replicate, ← hsplit, rowAt_replicate_append]
  rfl

theorem head?_trimmed (f : Fold) : f.trimmed.head? ≠ some 0 := by
  intro h
  have h' := List.head?_dropWhile_not (· == 0) (trimEnd f.slots)
  rw [← trimmed, h] at h'
  simp at h'

theorem getLast?_trimmed (f : Fold) : f.trimmed.getLast? ≠ some 0 := by
  intro h
  refine getLast?_trimEnd f.slots ?_
  have hsplit := List.takeWhile_append_dropWhile (p := (· == 0)) (l := trimEnd f.slots)
  rw [← hsplit, List.getLast?_append]
  show Option.or f.trimmed.getLast? _ = some 0
  rw [h, Option.some_or]

/-- A row between its zeros that changes nothing is empty. -/
theorem trimmed_eq_nil (f : Fold) (h : ∀ q, f.changeAt q = 0) : f.trimmed = [] := by
  cases hd : f.trimmed with
  | nil => rfl
  | cons d ds =>
    have h₀ := rowAt_trimmed f f.trimmedBase
    rw [h, hd, rowAt_cons, if_pos rfl] at h₀
    refine absurd ?_ (head?_trimmed f)
    rw [hd, h₀]
    rfl

theorem build_eq (f : Fold) : f.build =
    if f.trimmed ≠ [] then some (.run f.trimmed f.trimmedBase f.position f.source f.minOffset)
    else if f.position = 0 ∧ ¬ f.minOffset.any (· < 0) then none
    else some (.run [] 0 f.position f.source f.minOffset) := rfl

theorem eq_run_of_build {f : Fold} {r : Instruction} (h : f.build = some r) :
    ∃ ds base low, r = .run ds base f.position f.source low := by
  rw [build_eq] at h
  split at h
  · cases h; exact ⟨_, _, _, rfl⟩
  · split at h <;> cases h
    exact ⟨_, _, _, rfl⟩

end Fold

/-- The instruction carries no mark. -/
def Instruction.Unmarked (i : Instruction) : Prop := i.linearFactor = none ∧ i.scanStep = none

/-- A run that does what the stretch `w` does. -/
structure RunOf (w : List Act) (r : Instruction) : Prop where
  kind : r.kind = .run
  netShift : r.netShift = Act.movement w
  deltaAt : ∀ q, r.deltaAt q = Act.change q 0 w
  minOffset : ∀ x, (∃ m, r.minOffset = some m ∧ m < x) ↔ ∃ q ∈ Act.touched 0 w, q < x
  head_ne : r.deltas.head? ≠ some 0
  last_ne : r.deltas.getLast? ≠ some 0
  unmarked : r.Unmarked

namespace Fold
variable {w : List Act} {r : Instruction}

theorem trimmed_ofActs_of_minOffset (h : (ofActs w).minOffset = none) :
    (ofActs w).trimmed = [] := by
  refine trimmed_eq_nil _ fun q => ?_
  rw [changeAt_ofActs]
  by_contra hq
  have h' := (minOffset_ofActs w (q + 1)).2 ⟨q, Act.mem_touched_of_change_ne hq, by omega⟩
  simp [h] at h'

theorem build_eq_some (h : (ofActs w).build = some r) : RunOf w r := by
  rw [build_eq] at h
  by_cases hd : (ofActs w).trimmed = []
  · have hzero (q : Int) : 0 = Act.change q 0 w := by
      rw [← changeAt_ofActs, ← rowAt_trimmed, hd, rowAt_nil]
    simp only [hd, ne_eq, not_true_eq_false, if_false] at h
    split at h
    · cases h
    · cases h
      refine ⟨rfl, position_ofActs w, fun q => ?_, fun x => ?_, nofun, nofun, rfl, rfl⟩
      · rw [Instruction.deltaAt_eq, ← hzero]
        exact rowAt_nil
      · rw [← minOffset_ofActs]
        simp [Instruction.run]
  · rw [if_pos hd] at h
    cases h
    obtain ⟨m, hm⟩ := Option.ne_none_iff_exists'.1 (mt trimmed_ofActs_of_minOffset hd)
    refine ⟨rfl, position_ofActs w, fun q => ?_, fun x => ?_, head?_trimmed _, getLast?_trimmed _,
      rfl, rfl⟩
    · rw [← changeAt_ofActs, ← rowAt_trimmed]
      rfl
    · rw [← minOffset_ofActs]
      simp [Instruction.run, hm]

theorem build_eq_none (h : (ofActs w).build = none) :
    Act.movement w = 0 ∧ (∀ q, Act.change q 0 w = 0) ∧ ∀ q ∈ Act.touched 0 w, 0 ≤ q := by
  rw [build_eq] at h
  by_cases hd : (ofActs w).trimmed = []
  · simp only [hd, ne_eq, not_true_eq_false, if_false] at h
    split at h
    · rename_i hcond
      refine ⟨by rw [← position_ofActs]; exact hcond.1, fun q => ?_, fun q hq => ?_⟩
      · rw [← changeAt_ofActs, ← rowAt_trimmed, hd, rowAt_nil]
      · by_contra hneg
        obtain ⟨m, hm, hlt⟩ := (minOffset_ofActs w 0).2 ⟨q, hq, by omega⟩
        refine hcond.2 ?_
        rw [hm]
        simpa using hlt
    · cases h
  · rw [if_pos hd] at h
    cases h

end Fold

end TapeFold
