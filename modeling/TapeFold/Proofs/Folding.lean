import TapeFold.Proofs.Dispatch

/-!
# A run does what its stretch does

From a pointer that is not left of the first cell, a run for the stretch `w` fails just if `w` changes
a cell left of the first one (`RunOf.fails`), and else moves the pointer and changes the cells as `w`
does (`RunOf.folded`).
-/

namespace TapeFold

open Act (movement change touched)

variable {t : Tape} {w : List Act} {r : Instruction} {q a : Int}

/-- The tape `t'` is what a run for `w` makes of `t`. It is no longer than it has to be. -/
structure Folded (t : Tape) (w : List Act) (t' : Tape) : Prop where
  pointer : t'.pointer = t.pointer + movement w
  cell : ∀ k, t'.cell k = t.cell k + if k < 0 then 0 else change k t.pointer w
  size_le : ∀ n : Int, t.size ≤ n → (∀ q ∈ touched t.pointer w, q < n) →
    t.pointer + movement w < n → t'.size ≤ n

theorem Tape.exists_shift (h : 0 < a → 0 ≤ t.pointer + a) :
    ∃ t', shift a t = .ok () t' ∧ t'.pointer = t.pointer + a ∧ (∀ k, t'.cell k = t.cell k) ∧
      ∀ n : Int, t.size ≤ n → t.pointer + a < n → t'.size ≤ n := by
  rcases Int.lt_or_le 0 a with ha | ha
  · refine ⟨_, shift_of_pos ha (h ha), pointer_grow _ _, fun k => ?_, fun n hn hlt => ?_⟩
    · rw [cell_grow, cell_moved]
    · rw [size_grow, size_moved]
      have := h ha
      omega
  · exact ⟨_, shift_of_nonpos ha, rfl, fun k => rfl, fun n hn _ => hn⟩

theorem Act.mem_touched_iff : q ∈ touched t.pointer w ↔ q - t.pointer ∈ touched 0 w := by
  have h := touched_add 0 t.pointer w
  rw [Int.zero_add] at h
  rw [h, List.mem_map]
  refine ⟨fun ⟨p, hp, hq⟩ => ?_, fun hq => ⟨_, hq, Int.sub_add_cancel q _⟩⟩
  rwa [← hq, Int.add_sub_cancel]

theorem Act.mem_touched_add_iff : t.pointer + q ∈ touched t.pointer w ↔ q ∈ touched 0 w := by
  rw [mem_touched_iff, Int.add_comm, Int.add_sub_cancel]

theorem Folded.of_build_eq_none (h : (Fold.ofActs w).build = none) : Folded t w t := by
  obtain ⟨hmove, hchange, -⟩ := Fold.build_eq_none h
  refine ⟨by rw [hmove, Int.add_zero], fun k => ?_, fun n hn _ _ => hn⟩
  have hc := Act.change_add (k - t.pointer) 0 t.pointer w
  rw [Int.sub_add_cancel, Int.zero_add, hchange] at hc
  rw [hc, ite_self, Int.add_zero]

namespace RunOf
variable (h : RunOf w r)
include h

theorem mem_touched_of_deltaAt (hq : r.deltaAt q ≠ 0) : q ∈ touched 0 w := by
  rw [h.deltaAt] at hq
  exact Act.mem_touched_of_change_ne hq

theorem deltaAt_sub (q : Int) : r.deltaAt (q - t.pointer) = change q t.pointer w := by
  have hc := Act.change_add (q - t.pointer) 0 t.pointer w
  rw [Int.sub_add_cancel, Int.zero_add] at hc
  rw [h.deltaAt, hc]

theorem base_mem_touched (hd : r.deltas ≠ []) : r.baseOffset ∈ touched 0 w := by
  refine h.mem_touched_of_deltaAt ?_
  obtain ⟨d, ds, hds⟩ := List.exists_cons_of_ne_nil hd
  rw [Instruction.deltaAt_eq, hds, rowAt_cons, if_pos rfl]
  intro h₀
  exact h.head_ne (by rw [hds, h₀]; rfl)

theorem last_mem_touched (hd : r.deltas ≠ []) :
    r.baseOffset + r.deltas.length - 1 ∈ touched 0 w := by
  have hpos := List.length_pos_iff.2 hd
  refine h.mem_touched_of_deltaAt ?_
  rw [Instruction.deltaAt_eq, rowAt_of_le (by omega)]
  have hlast : (r.baseOffset + r.deltas.length - 1 - r.baseOffset).toNat = r.deltas.length - 1 := by
    omega
  rw [hlast, List.getD_eq_getElem?_getD, ← List.getLast?_eq_getElem?]
  intro h₀
  cases hl : r.deltas.getLast? with
  | none => exact hd (List.getLast?_eq_none_iff.1 hl)
  | some d =>
    rw [hl] at h₀
    exact h.last_ne (hl.trans (congrArg some h₀))

theorem fails (hq : ∃ q ∈ touched t.pointer w, q < 0) :
    ∃ j, Machine.runOn r t = .error (.leftOfFirst j) t := by
  obtain ⟨q, hq, hneg⟩ := hq
  obtain ⟨l, hl, hlt⟩ := (h.minOffset (-t.pointer)).2 ⟨_, Act.mem_touched_iff.1 hq, by omega⟩
  match hf : t.applyFault? r.deltas r.baseOffset r.minOffset with
  | some j => exact ⟨j, Machine.runOn_of_fault hf⟩
  | none =>
    have := (Tape.applyFault?_eq_none_iff.1 hf).1 l hl
    omega

theorem folded (hp : 0 ≤ t.pointer) (hok : ∀ q ∈ touched t.pointer w, 0 ≤ q) :
    ∃ t', Machine.runOn r t = .ok () t' ∧ Folded t w t' := by
  have hbase (hd : r.deltas ≠ []) : 0 ≤ t.pointer + r.baseOffset :=
    hok _ (Act.mem_touched_add_iff.2 (h.base_mem_touched hd))
  have hf : t.applyFault? r.deltas r.baseOffset r.minOffset = none := by
    refine Tape.applyFault?_eq_none_iff.2 ⟨fun l hl => ?_, hbase⟩
    by_contra hneg
    obtain ⟨q, hq, hlt⟩ := (h.minOffset (-t.pointer)).1 ⟨l, hl, by omega⟩
    have := hok (q + t.pointer) (Act.mem_touched_iff.2 (by rwa [Int.add_sub_cancel]))
    omega
  have hcell (k : Int) (hk : 0 ≤ k ∨ r.deltas = []) :
      r.deltaAt (k - t.pointer) = if k < 0 then 0 else change k t.pointer w := by
    split
    · rw [Instruction.deltaAt_eq, hk.resolve_left (by omega), rowAt_nil]
    · exact h.deltaAt_sub k
  by_cases hd : r.deltas = []
  · obtain ⟨t', ht, hpt, hct, hst⟩ := Tape.exists_shift (t := t) (a := r.netShift) (by omega)
    refine ⟨t', (Machine.runOn_of_nil hd hf).trans ht, ?_, fun k => ?_, fun n hn _ hlt => ?_⟩
    · rw [hpt, h.netShift]
    · rw [hct, ← hcell k (.inr hd), Instruction.deltaAt_eq, hd, rowAt_nil, Int.add_zero]
    · rw [← h.netShift] at hlt
      exact hst n hn hlt
  · have hb := hbase hd
    have hps := Tape.pointer_spread (t := t) r.deltas (t.pointer + r.baseOffset).toNat 1
    obtain ⟨t', ht, hpt, hct, hst⟩ := Tape.exists_shift (a := r.netShift)
      (t := t.spread r.deltas (t.pointer + r.baseOffset).toNat 1) (by omega)
    refine ⟨t', (Machine.runOn_of_ne_nil hd hf).trans ht, ?_, fun k => ?_, fun n hn hq hlt => ?_⟩
    · rw [hpt, hps, h.netShift]
    · rw [hct]
      rcases Int.lt_or_le k 0 with hk | hk
      · rw [Tape.cell_of_neg hk, Tape.cell_of_neg hk, if_pos hk]
        rfl
      · rw [Tape.cell_spread_row hd hb, Int.one_mul, ← Instruction.deltaAt_eq, hcell k (.inl hk)]
    · refine hst n ?_ (by rw [hps, h.netShift]; exact hlt)
      have hlast := hq _ (Act.mem_touched_add_iff.2 (h.last_mem_touched hd))
      rw [Tape.size_spread hd]
      omega

end RunOf

end TapeFold
