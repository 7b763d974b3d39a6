import TapeFold.Proofs.Folding

/-!
# Folding is exact

The row of a fold holds the net change of each position that it covers, and the other positions are
unchanged (`Fold.tracks_ofActs`). A stretch folds away just if it is idle
(`Fold.build_ofActs_eq_none_iff`), and otherwise the run that is built from it has just the net effects
of the stretch and passes its own check (`Fold.exact_of_build`). So what is built depends on the effects
alone, but for its source (`Fold.build_congr`).
-/

namespace TapeFold

open Act (movement change touched)

/-- The row of `f` and its pointer are where the stretch `w` has left them. -/
structure Fold.Tracks (w : List Act) (f : Fold) : Prop where
  slot_lt : f.slot < f.slots.length
  position : f.slot + f.baseOffset = movement w
  row : ∀ (i : Nat) (h : i < f.slots.length), f.slots[i] = Act.change (f.baseOffset + i) 0 w
  outside : ∀ q, q < f.baseOffset ∨ f.baseOffset + f.slots.length ≤ q → Act.change q 0 w = 0

/-- The acts change no cell and do not move, and on their way they only change cells from the first
one on. -/
structure Act.Idle (u : List Act) : Prop where
  movement : Act.movement u = 0
  change : ∀ q, Act.change q 0 u = 0
  touched : ∀ q ∈ Act.touched 0 u, 0 ≤ q

/-- The run `r` has the net effects of the stretch `w`, and is a valid instruction. -/
structure Instruction.Exact (w : List Act) (r : Instruction) : Prop where
  kind : r.kind = .run
  effects : ∀ q d, (q, d) ∈ r.effects ↔ d ≠ 0 ∧ change q 0 w = d
  ordered : r.effects.Pairwise fun e e' => e.1 < e'.1
  netShift : r.netShift = movement w
  minOffset : r.minOffset = (touched 0 w).min?
  head_ne : r.deltas.head? ≠ some 0
  last_ne : r.deltas.getLast? ≠ some 0
  source : r.source = Symbol.toText (w.map .act)
  check : r.check = .ok r

/-- The instruction with another source. -/
def Instruction.withSource (i : Instruction) (source : String) : Instruction := { i with source }

/-! ### Rows -/

section
variable {row row' : List Int} {base base' q d : Int} {k : Nat}

theorem rowAt_add_natCast (row : List Int) (base : Int) (k : Nat) :
    rowAt row base (base + k) = row.getD k 0 := by
  have hk : (base + k - base).toNat = k := by omega
  rw [rowAt_of_le (by omega), hk]

theorem rowAt_eq_iff (hd : d ≠ 0) :
    rowAt row base q = d ↔ ∃ k : Nat, row[k]? = some d ∧ base + k = q := by
  constructor
  · rintro rfl
    rcases Int.lt_or_le q base with hq | hq
    · exact absurd (rowAt_of_lt hq) hd
    · refine ⟨(q - base).toNat, ?_, by omega⟩
      rw [rowAt_of_le hq, List.getD_eq_getElem?_getD] at hd ⊢
      cases hrow : row[(q - base).toNat]? with
      | none =>
        rw [hrow] at hd
        exact absurd rfl hd
      | some x => rfl
  · rintro ⟨k, hk, rfl⟩
    rw [rowAt_add_natCast, List.getD_eq_getElem?_getD, hk]
    rfl

/-- The first position of a row that does not begin with a zero is one where it is not zero. -/
theorem rowAt_head_ne (base : Int) (hne : row ≠ []) (hhead : row.head? ≠ some 0) :
    rowAt row base base ≠ 0 := by
  obtain ⟨x, xs, rfl⟩ := List.exists_cons_of_ne_nil hne
  rw [rowAt_cons, if_pos rfl]
  intro hx
  exact hhead (congrArg some hx)

/-- So is the last one of a row that does not end with a zero. -/
theorem rowAt_last_ne (hne : row ≠ []) (hlast : row.getLast? ≠ some 0) :
    row.getD (row.length - 1) 0 ≠ 0 := by
  rw [List.getD_eq_getElem?_getD, ← List.getLast?_eq_getElem?]
  intro h
  cases hx : row.getLast? with
  | none => exact hne (List.getLast?_eq_none_iff.1 hx)
  | some x =>
    rw [hx] at h
    exact hlast (hx.trans (congrArg some h))

section
variable (hrow : ∀ q, rowAt row base q = rowAt row' base' q)
include hrow

theorem base_le_of_rowAt_eq (hne : row' ≠ []) (hhead : row'.head? ≠ some 0) : base ≤ base' := by
  by_contra hlt
  refine rowAt_head_ne base' hne hhead ?_
  rw [← hrow, rowAt_of_lt (by omega)]

theorem length_le_of_rowAt_eq (hbase : base = base') (hlast : row.getLast? ≠ some 0) :
    row.length ≤ row'.length := by
  by_contra hlt
  have hne : row ≠ [] := by
    rintro rfl
    exact hlt (Nat.zero_le _)
  refine rowAt_last_ne hne hlast ?_
  rw [← rowAt_add_natCast row base, hrow, hbase, rowAt_add_natCast,
    List.getD_eq_getElem?_getD, List.getElem?_eq_none (by omega)]
  rfl

end

/-- A row without zeros at its ends is determined by its look-up. -/
theorem row_eq_of_rowAt_eq (hrow : ∀ q, rowAt row base q = rowAt row' base' q)
    (hhead : row.head? ≠ some 0) (hlast : row.getLast? ≠ some 0)
    (hhead' : row'.head? ≠ some 0) (hlast' : row'.getLast? ≠ some 0) :
    row = row' ∧ (row ≠ [] → base = base') := by
  by_cases hne : row = []
  · subst hne
    refine ⟨?_, fun h => absurd rfl h⟩
    by_contra hne'
    refine rowAt_head_ne base' (Ne.symm hne') hhead' ?_
    rw [← hrow, rowAt_nil]
  · have hne' : row' ≠ [] := by
      rintro rfl
      refine rowAt_head_ne base hne hhead ?_
      rw [hrow, rowAt_nil]
    have hbase : base = base' := by
      have h := base_le_of_rowAt_eq hrow hne' hhead'
      have h' := base_le_of_rowAt_eq (fun q => (hrow q).symm) hne hhead
      omega
    have hlen : row.length = row'.length := by
      have h := length_le_of_rowAt_eq hrow hbase hlast
      have h' := length_le_of_rowAt_eq (fun q => (hrow q).symm) hbase.symm hlast'
      omega
    refine ⟨List.ext_getElem hlen fun i hi hi' => ?_, fun _ => hbase⟩
    have h := hrow (base + i)
    rw [rowAt_add_natCast, hbase, rowAt_add_natCast] at h
    rwa [List.getD_eq_getElem?_getD, List.getD_eq_getElem?_getD, List.getElem?_eq_getElem hi,
      List.getElem?_eq_getElem hi'] at h

end

/-! ### Instructions -/

namespace Instruction
variable {i r : Instruction} {q d : Int} {w : List Act}

/-- The effects are the positions that change, with their changes. -/
theorem mem_effects_iff : (q, d) ∈ i.effects ↔ d ≠ 0 ∧ i.deltaAt q = d := by
  have hmem : (q, d) ∈ i.effects ↔
      d ≠ 0 ∧ ∃ k : Nat, i.deltas[k]? = some d ∧ i.baseOffset + k = q := by
    rw [effects, List.mem_filter, List.mem_mapIdx, and_comm, bne_iff_ne]
    refine and_congr_right fun _ => ⟨?_, ?_⟩
    · rintro ⟨k, hk, h⟩
      obtain ⟨hq, hd⟩ := Prod.mk.inj h
      exact ⟨k, List.getElem?_eq_some_iff.2 ⟨hk, hd⟩, hq⟩
    · rintro ⟨k, hd, hq⟩
      obtain ⟨hk, hd⟩ := List.getElem?_eq_some_iff.1 hd
      exact ⟨k, hk, Prod.ext hq hd⟩
  rw [hmem, deltaAt_eq]
  exact and_congr_right fun hd => (rowAt_eq_iff hd).symm

theorem pairwise_effects (i : Instruction) : i.effects.Pairwise fun e e' => e.1 < e'.1 := by
  refine List.Pairwise.filter _ (List.pairwise_iff_getElem.2 fun k l hk hl hlt => ?_)
  rw [List.getElem_mapIdx, List.getElem_mapIdx]
  show i.baseOffset + (k : Int) < i.baseOffset + (l : Int)
  omega

/-- A valid instruction passes its check. -/
theorem Valid.check (h : i.Valid) : i.check = .ok i := by
  have hfactor : ¬ i.linearFactor.any (· ≤ 0) := by
    cases hf : i.linearFactor with
    | none => simp
    | some f => simpa using h.factor_pos f hf
  have hends : ¬ (i.deltas.head? = some 0 ∨ i.deltas.getLast? = some 0) := by
    rintro (h₀ | h₀)
    · obtain ⟨ds, hds⟩ := List.head?_eq_some_iff.1 h₀
      refine h.head_ne (by simp [hds]) ?_
      simp [hds]
    · obtain ⟨ds, hds⟩ := List.getLast?_eq_some_iff.1 h₀
      refine h.last_ne (by simp [hds]) ?_
      simp [hds]
  have hlow : ¬ (i.deltas ≠ [] ∧ i.minOffset.all (i.baseOffset < ·)) := by
    rintro ⟨hne, hall⟩
    obtain ⟨o, ho, hle⟩ := h.minOffset_le hne
    rw [ho] at hall
    have hlt : i.baseOffset < o := by simpa using hall
    omega
  rw [Instruction.check, if_neg hfactor, if_neg hends, if_neg h.scanStep_ne, if_neg hlow]

end Instruction

/-! ### Feeding -/

namespace Fold
variable {w v u : List Act} {r : Instruction}

theorem slot_lt_length (f : Fold) : f.slot < f.slots.length := by
  rw [slot, slots, List.length_append, List.length_reverse, List.length_cons]
  omega

theorem source_feed (f : Fold) (a : Act) : (f.feed a).source = f.source.push a.toChar := by
  cases a with
  | inc => rfl
  | dec => rfl
  | left =>
    simp only [feed, apply, moveLeft]
    split <;> rfl
  | right =>
    simp only [feed, apply, moveRight]
    split <;> rfl

theorem source_foldl (f : Fold) (u : List Act) :
    (u.foldl feed f).source = f.source ++ Symbol.toText (u.map .act) := by
  induction u generalizing f with
  | nil => exact String.append_empty.symm
  | cons a u ih =>
    have hcons : Symbol.toText (.act a :: u.map .act) =
        String.singleton a.toChar ++ Symbol.toText (u.map .act) := String.ofList_cons
    rw [List.foldl_cons, ih, source_feed, List.map_cons, hcons, ← String.append_assoc,
      String.push_eq_append]

theorem source_build (h : (ofActs u).build = some r) : r.source = Symbol.toText (u.map .act) := by
  obtain ⟨ds, base, low, rfl⟩ := eq_run_of_build h
  exact (source_foldl {} u).trans String.empty_append

/-- Each act has a text that names it. -/
theorem run_feedText (f : Fold) (a : Act) :
    (feedText (String.singleton a.toChar)).run f = .ok () (f.feed a) := by
  have hname : Act.ofText? (String.singleton a.toChar) = some a := by cases a <;> decide
  simp only [EStateM.run, feedText, hname, feed, String.push_eq_append]

theorem run_forM_feedText (f : Fold) (w : List Act) :
    (w.forM fun a => feedText (String.singleton a.toChar)).run f = .ok () (w.foldl feed f) := by
  induction w generalizing f with
  | nil => rfl
  | cons a w ih =>
    rw [List.forM_eq_forM] at ih ⊢
    rw [List.forM_cons, EStateM.run_bind, run_feedText]
    exact ih (f.feed a)

theorem tracks_ofActs (w : List Act) : Tracks w (ofActs w) where
  slot_lt := slot_lt_length _
  position := position_ofActs w
  row i h := by
    rw [← changeAt_ofActs, changeAt, rowAt_add_natCast, List.getD_eq_getElem?_getD,
      List.getElem?_eq_getElem h]
    rfl
  outside q hq := by
    rw [← changeAt_ofActs, changeAt]
    rcases hq with hq | hq
    · exact rowAt_of_lt hq
    · rw [rowAt_of_le (by omega), List.getD_eq_getElem?_getD, List.getElem?_eq_none (by omega)]
      rfl

/-- The leftmost position at which the stretch changes a cell. -/
theorem minOffset_ofActs_eq (w : List Act) : (ofActs w).minOffset = (touched 0 w).min? := by
  have hlow := minOffset_ofActs w
  cases hm : (ofActs w).minOffset with
  | none =>
    have hnil : touched 0 w = [] := by
      refine List.eq_nil_iff_forall_not_mem.2 fun q hq => ?_
      obtain ⟨m, hm', -⟩ := (hlow (q + 1)).2 ⟨q, hq, by omega⟩
      rw [hm] at hm'
      cases hm'
    rw [hnil]
    rfl
  | some m =>
    have hle (q : Int) (hq : q ∈ touched 0 w) : m ≤ q := by
      obtain ⟨m', hm', hlt⟩ := (hlow (q + 1)).2 ⟨q, hq, by omega⟩
      rw [hm] at hm'
      cases hm'
      omega
    obtain ⟨q, hq, hlt⟩ := (hlow (m + 1)).1 ⟨m, hm, by omega⟩
    have hqm : q = m := by
      have := hle q hq
      omega
    exact (List.min?_eq_some_iff.2 ⟨hqm ▸ hq, hle⟩).symm

/-! ### Building -/

/-- Idle stretches fold away, and no others. -/
theorem build_ofActs_eq_none_iff : (ofActs u).build = none ↔ Act.Idle u := by
  constructor
  · intro h
    obtain ⟨h₁, h₂, h₃⟩ := build_eq_none h
    exact ⟨h₁, h₂, h₃⟩
  · intro h
    have hd : (ofActs u).trimmed = [] :=
      trimmed_eq_nil _ fun q => (changeAt_ofActs u q).trans (h.change q)
    have hlow : ¬ (ofActs u).minOffset.any (· < 0) := by
      intro hany
      obtain ⟨m, hm, hneg⟩ := (Option.any_eq_true _ _).1 hany
      obtain ⟨q, hq, hlt⟩ := (minOffset_ofActs u 0).1 ⟨m, hm, of_decide_eq_true hneg⟩
      have hle := h.touched q hq
      omega
    have hposition : (ofActs u).position = 0 := (position_ofActs u).trans h.movement
    rw [build_eq, if_neg (by simp [hd]), if_pos ⟨hposition, hlow⟩]

theorem trimmed_ofActs_congr (hchange : ∀ q, Act.change q 0 v = Act.change q 0 w) :
    (ofActs v).trimmed = (ofActs w).trimmed ∧
      ((ofActs v).trimmed ≠ [] → (ofActs v).trimmedBase = (ofActs w).trimmedBase) := by
  refine row_eq_of_rowAt_eq (fun q => ?_) (head?_trimmed _) (getLast?_trimmed _) (head?_trimmed _)
    (getLast?_trimmed _)
  rw [rowAt_trimmed, rowAt_trimmed, changeAt_ofActs, changeAt_ofActs, hchange]

/-- The run begins where the stretch changes a cell, so its leftmost position is no further right. -/
theorem minOffset_of_build (h : (ofActs w).build = some r) :
    r.minOffset = (touched 0 w).min? := by
  rw [← minOffset_ofActs_eq]
  rw [build_eq] at h
  split at h
  · rename_i hd
    obtain ⟨m, hm⟩ := Option.ne_none_iff_exists'.1 (mt trimmed_ofActs_of_minOffset hd)
    cases h
    rw [Instruction.run, hm]
    rfl
  · split at h
    · cases h
    · cases h
      exact Option.or_none

theorem valid_of_build (h : (ofActs w).build = some r) : r.Valid := by
  have hr := build_eq_some h
  refine ⟨fun f hf => ?_, fun hne h₀ => ?_, fun hne h₀ => ?_, ?_, fun hne => ?_⟩
  · rw [hr.unmarked.1] at hf
    cases hf
  · exact hr.head_ne (by rw [List.head?_eq_some_head hne, h₀])
  · exact hr.last_ne (by rw [List.getLast?_eq_some_getLast hne, h₀])
  · rw [hr.unmarked.2]
    nofun
  · have hbase := hr.base_mem_touched hne
    obtain ⟨m, hm, hlt⟩ := (hr.minOffset (r.baseOffset + 1)).2 ⟨_, hbase, by omega⟩
    exact ⟨m, hm, by omega⟩

theorem exact_of_build (h : (ofActs w).build = some r) : r.Exact w := by
  have hr := build_eq_some h
  exact {
    kind := hr.kind
    effects := fun q d => by rw [Instruction.mem_effects_iff, hr.deltaAt]
    ordered := r.pairwise_effects
    netShift := hr.netShift
    minOffset := minOffset_of_build h
    head_ne := hr.head_ne
    last_ne := hr.last_ne
    source := source_build h
    check := (valid_of_build h).check }

/-- What is built depends on the net effects and on the leftmost position touched alone, but for its
source. -/
theorem build_congr (hchange : ∀ q, Act.change q 0 v = Act.change q 0 w)
    (hmove : movement v = movement w) (hlow : (touched 0 v).min? = (touched 0 w).min?) :
    (ofActs v).build.map (·.withSource "") = (ofActs w).build.map (·.withSource "") := by
  obtain ⟨hrow, hbase⟩ := trimmed_ofActs_congr hchange
  rw [build_eq, build_eq, position_ofActs, position_ofActs, minOffset_ofActs_eq,
    minOffset_ofActs_eq, hmove, hlow, ← hrow]
  split
  · rename_i hd
    rw [← hbase hd]
    rfl
  · split <;> rfl

/-- Folding is exact: each prefix of a stretch is fed without an error and leaves the row and the
pointer at its net effects, and what is built from the whole stretch is a valid run with just these
effects, or nothing if the stretch is idle. -/
theorem folding_exact (w : List Act) :
    (∀ v, v <+: w →
      (v.forM fun a => feedText (String.singleton a.toChar)).run {} = .ok () (ofActs v) ∧
        Tracks v (ofActs v)) ∧
    ((ofActs w).build = none ↔
      (∀ q, Act.change q 0 w = 0) ∧ movement w = 0 ∧ ∀ q ∈ touched 0 w, 0 ≤ q) ∧
    (∀ r, (ofActs w).build = some r → r.Exact w) ∧
    ∀ v, (∀ q, Act.change q 0 v = Act.change q 0 w) → movement v = movement w →
      (touched 0 v).min? = (touched 0 w).min? →
      (ofActs v).build.map (·.withSource "") = (ofActs w).build.map (·.withSource "") := by
  refine ⟨fun v _ => ⟨run_forM_feedText {} v, tracks_ofActs v⟩, ?_, fun r => exact_of_build,
    fun v => build_congr⟩
  rw [build_ofActs_eq_none_iff]
  exact ⟨fun h => ⟨h.change, h.movement, h.touched⟩, fun ⟨h₁, h₂, h₃⟩ => ⟨h₂, h₁, h₃⟩⟩

/-- The change left of the entry cancels out and is still checked, in either order of its acts. -/
theorem folding_exact_of_cancelled_detour :
    ∃ r, (ofActs [.left, .inc, .dec, .right, .right, .inc]).build = some r ∧
      r.Exact [.left, .inc, .dec, .right, .right, .inc] ∧ r.minOffset = some (-1) ∧
      (ofActs [.left, .dec, .inc, .right, .right, .inc]).build.map (·.withSource "") =
        some (r.withSource "") := by
  obtain ⟨-, hnone, hexact, hcongr⟩ := folding_exact [.left, .inc, .dec, .right, .right, .inc]
  obtain ⟨r, hr⟩ : ∃ r, (ofActs [.left, .inc, .dec, .right, .right, .inc]).build = some r := by
    refine Option.ne_none_iff_exists'.1 fun h => ?_
    obtain ⟨-, hmove, -⟩ := hnone.1 h
    revert hmove
    decide
  refine ⟨r, hr, hexact r hr, ?_, ?_⟩
  · rw [(hexact r hr).minOffset]
    decide
  · rw [hcongr [.left, .dec, .inc, .right, .right, .inc] (fun q => ?_) (by decide) (by decide), hr]
    · rfl
    · simp only [Act.change, Act.amount, Act.offset]
      omega

end Fold

end TapeFold
