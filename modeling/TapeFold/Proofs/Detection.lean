import TapeFold.Proofs.Brackets
import TapeFold.Proofs.Compaction
import TapeFold.Proofs.WellFormed

/-!
# Loops are marked for what their bodies do

Marking looks at compacted code: at a loop that closes two instructions later, and at the row, the
base and the leftmost position of the run between. What it sees there is what the body does in the
text: a loop has a sole run just if its body is a stretch that does not fold away, and the run is
that of the stretch (`Linked.exists_soleRun?_iff`); such a run begins no further right than the entry
just if the stretch changes a cell there or left of it, or none at all (`Fold.baseOffset_le_iff`); and
it has no leftmost position just if no act changes a cell (`Fold.moves_iff`). So the marks and the
notes are those of the bodies (`Program.marks_exact`).
-/

namespace TapeFold

open Act (movement change touched)
open Outline (index)

namespace Act

/-- What marking sees of a loop of the stretch `u`: it stays where it is and changes the control cell
by `c`. If the control cell is left as it is, then it is seen only if a cell left of it changes, or if
no cell changes but an act was executed left of it. -/
structure Controls (u : List Act) (c : Int) : Prop where
  still : movement u = 0
  control : change 0 0 u = c
  seen : c ≠ 0 ∨ (∃ q < 0, change q 0 u ≠ 0) ∨
    (∀ q, change q 0 u = 0) ∧ ∃ q ∈ touched 0 u, q < 0

/-- The stretch `u` only moves the pointer, by `k` in all. -/
structure Moves (u : List Act) (k : Int) : Prop where
  only : ∀ a ∈ u, a = .left ∨ a = .right
  net : movement u = k
  ne_zero : k ≠ 0

end Act

namespace Symbol

/-- The symbols strictly between `i` and `j`. -/
def inside (w : List Symbol) (i j : Nat) : List Symbol := (w.take j).drop (i + 1)

/-- A body of `+ - < >` that stays where it is and lowers the control cell by `f`. -/
def LowersControl (body : List Symbol) (f : Int) : Prop :=
  ∃ u : List Act, body = u.map .act ∧ movement u = 0 ∧ change 0 0 u = -f ∧ -f < 0

/-- A body of `< >` that moves by `k`. -/
def OnlyMoves (body : List Symbol) (k : Int) : Prop :=
  ∃ u : List Act, body = u.map .act ∧ Act.Moves u k

/-- A body of `+ - < >` that stays where it is and does not lower the control cell, for which a note is
made: it raises that cell, or changes a cell left of it, or changes nothing at all but has executed
a `+` or `-` left of it. -/
def Suspect (body : List Symbol) (c : Int) : Prop :=
  ∃ u : List Act, body = u.map .act ∧ movement u = 0 ∧ change 0 0 u = c ∧ 0 ≤ c ∧
    (0 < c ∨ (∃ q < 0, change q 0 u ≠ 0) ∨
      (∀ q, change q 0 u = 0) ∧ ∃ q ∈ touched 0 u, q < 0)

section
variable {body : List Symbol} {f c : Int}

theorem lowersControl_iff : LowersControl body f ↔
    (∃ u : List Act, body = u.map .act ∧ Act.Controls u (-f)) ∧ -f < 0 := by
  constructor
  · rintro ⟨u, hu, hstill, hcontrol, hneg⟩
    exact ⟨⟨u, hu, hstill, hcontrol, .inl (Int.ne_of_lt hneg)⟩, hneg⟩
  · rintro ⟨⟨u, hu, hstill, hcontrol, -⟩, hneg⟩
    exact ⟨u, hu, hstill, hcontrol, hneg⟩

theorem suspect_iff : Suspect body c ↔
    (∃ u : List Act, body = u.map .act ∧ Act.Controls u c) ∧ 0 ≤ c := by
  constructor
  · rintro ⟨u, hu, hstill, hcontrol, hle, hseen⟩
    exact ⟨⟨u, hu, hstill, hcontrol, hseen.imp_left Int.ne_of_gt⟩, hle⟩
  · rintro ⟨⟨u, hu, hstill, hcontrol, hseen⟩, hle⟩
    exact ⟨u, hu, hstill, hcontrol, hle, hseen.imp_left fun hne => by omega⟩

end

end Symbol

/-- The marks and the notes of `p`, compiled from `w`, are those of the bodies of its loops. -/
structure Program.MarkedByBodies (w : List Symbol) (linear : Bool) (p : Program) : Prop where
  loops : ∀ i j, Symbol.Closes w i j → ∃ (a : Nat) (x : Instruction),
    Draft.place? w i = some a ∧ p.code[a]? = some x ∧ x.kind = .loopOpen ∧
    (∀ f, x.linearFactor = some f ↔
      linear = true ∧ Symbol.LowersControl (Symbol.inside w i j) f) ∧
    ∀ k, x.scanStep = some k ↔ Symbol.OnlyMoves (Symbol.inside w i j) k
  only_loops : ∀ (a : Nat) (x : Instruction), p.code[a]? = some x → ¬ x.Unmarked →
    ∃ i j, Symbol.Closes w i j ∧ Draft.place? w i = some a
  ordered : p.diagnostics.Pairwise fun d e => d.index < e.index
  notes : ∀ d, d ∈ p.diagnostics ↔ linear = true ∧ ∃ i j, Symbol.Closes w i j ∧
    Draft.place? w i = some d.index ∧ Symbol.Suspect (Symbol.inside w i j) d.controlDelta
  without_linear : linear = false →
    (∀ (a : Nat) (x : Instruction), p.code[a]? = some x → x.linearFactor = none) ∧
      p.diagnostics = []

/-! ### What the run of a stretch shows -/

section
variable {u : List Act} {r : Instruction} {c k p : Int}

theorem Act.amount_eq_zero_iff {a : Act} : a.amount = 0 ↔ a = .left ∨ a = .right := by
  cases a <;> simp [amount]

theorem Act.touched_eq_nil_iff : touched p u = [] ↔ ∀ a ∈ u, a.amount = 0 := by
  induction u generalizing p with
  | nil => simp [touched]
  | cons a u ih =>
    rw [List.forall_mem_cons]
    by_cases ha : a.amount = 0
    · rw [touched_cons_of_move ha, ih, and_iff_right ha]
    · rw [touched_cons_of_amount ha]
      exact iff_of_false (List.cons_ne_nil _ _) fun h => ha h.1

namespace Fold

theorem baseOffset_of_build (h : (ofActs u).build = some r) (hd : r.deltas = []) :
    r.baseOffset = 0 := by
  rw [build_eq] at h
  split at h
  · cases h
    exact absurd hd ‹_›
  · split at h <;> cases h
    rfl

/-- A run begins right of the entry just if its changes are all right of it and there are some. -/
theorem baseOffset_le_iff (h : (ofActs u).build = some r) :
    r.baseOffset ≤ 0 ↔ (∃ q ≤ 0, Act.change q 0 u ≠ 0) ∨ ∀ q, Act.change q 0 u = 0 := by
  have hrun := build_eq_some h
  simp only [← hrun.deltaAt, Instruction.deltaAt_eq]
  by_cases hd : r.deltas = []
  · have hnone (q : Int) : rowAt r.deltas r.baseOffset q = 0 := by rw [hd, rowAt_nil]
    exact iff_of_true (Int.le_of_eq (baseOffset_of_build h hd)) (.inr hnone)
  · have hhead := rowAt_head_ne r.baseOffset hd hrun.head_ne
    constructor
    · intro hle
      exact .inl ⟨_, hle, hhead⟩
    · rintro (⟨q, hq, hne⟩ | hnone)
      · by_contra hlt
        exact hne (rowAt_of_lt (by omega))
      · exact absurd (hnone _) hhead

/-- Marking sees a control change of the run just if it is that of the stretch and is seen there. -/
theorem controls_iff :
    (∃ r, (ofActs u).build = some r ∧ r.netShift = 0 ∧ r.baseOffset ≤ 0 ∧ r.deltaAt 0 = c) ↔
      Act.Controls u c := by
  constructor
  · rintro ⟨r, hr, hshift, hbase, hcontrol⟩
    have hrun := build_eq_some hr
    have hstill : movement u = 0 := hrun.netShift.symm.trans hshift
    refine ⟨hstill, (hrun.deltaAt 0).symm.trans hcontrol, ?_⟩
    by_cases hc : c = 0
    · right
      rw [hrun.deltaAt] at hcontrol
      rcases (baseOffset_le_iff hr).1 hbase with ⟨q, hq, hne⟩ | hnone
      · refine .inl ⟨q, Int.lt_iff_le_and_ne.2 ⟨hq, ?_⟩, hne⟩
        rintro rfl
        exact hne (hcontrol.trans hc)
      · -- a stretch that changes nothing is only kept for what it touches left of its entry
        refine .inr ⟨hnone, ?_⟩
        by_contra hright
        have hidle : Act.Idle u := ⟨hstill, hnone, fun q hq => by
          by_contra hneg
          exact hright ⟨q, hq, by omega⟩⟩
        rw [build_ofActs_eq_none_iff.2 hidle] at hr
        cases hr
    · exact .inl hc
  · rintro ⟨hstill, rfl, hseen⟩
    obtain ⟨r, hr⟩ : ∃ r, (ofActs u).build = some r := by
      refine Option.ne_none_iff_exists'.1 fun hnone => ?_
      have hidle := build_ofActs_eq_none_iff.1 hnone
      rcases hseen with hne | ⟨q, -, hne⟩ | ⟨-, q, hq, hneg⟩
      · exact hne (hidle.change 0)
      · exact hne (hidle.change q)
      · have hle := hidle.touched q hq
        omega
    have hrun := build_eq_some hr
    refine ⟨r, hr, hrun.netShift.trans hstill, (baseOffset_le_iff hr).2 ?_, hrun.deltaAt 0⟩
    rcases hseen with hne | ⟨q, hq, hne⟩ | ⟨hnone, -⟩
    · exact .inl ⟨0, Int.le_refl 0, hne⟩
    · exact .inl ⟨q, Int.le_of_lt hq, hne⟩
    · exact .inr hnone

/-- Marking sees a step in the run just if the stretch only moves. -/
theorem moves_iff :
    (∃ r, (ofActs u).build = some r ∧ r.deltas = [] ∧ r.minOffset = none ∧ k ≠ 0 ∧
      r.netShift = k) ↔ Act.Moves u k := by
  have honly : (∀ a ∈ u, a = .left ∨ a = .right) ↔ touched 0 u = [] := by
    simp only [Act.touched_eq_nil_iff, Act.amount_eq_zero_iff]
  constructor
  · rintro ⟨r, hr, -, hlow, hk, hshift⟩
    rw [minOffset_of_build hr, List.min?_eq_none_iff] at hlow
    exact ⟨honly.2 hlow, (build_eq_some hr).netShift.symm.trans hshift, hk⟩
  · rintro ⟨hu, rfl, hk⟩
    obtain ⟨r, hr⟩ : ∃ r, (ofActs u).build = some r :=
      Option.ne_none_iff_exists'.1 fun hnone => hk (build_ofActs_eq_none_iff.1 hnone).movement
    have hrun := build_eq_some hr
    have htouched := honly.1 hu
    refine ⟨r, hr, ?_, ?_, hk, hrun.netShift⟩
    · by_contra hd
      have hbase := hrun.base_mem_touched hd
      rw [htouched] at hbase
      cases hbase
    · rw [minOffset_of_build hr, htouched]
      rfl

end Fold

end

/-! ### The body of a loop in linked code -/

section
variable {w : List Symbol} {u : List Act} {i j : Nat}

theorem Symbol.Closes.drop_eq (hc : Closes w i j) :
    w.drop (i + 1) = inside w i j ++ w.drop j := by
  have hlen : i + 1 ≤ (w.take j).length := by
    rw [List.length_take_of_le (Nat.le_of_lt (List.getElem?_eq_some_iff.1 hc.closes).1)]
    exact hc.lt
  rw [inside, ← List.drop_append_of_le_length hlen, List.take_append_drop]

theorem Symbol.Closes.length_inside (hc : Closes w i j) :
    i + 1 + (inside w i j).length = j := by
  have hj := (List.getElem?_eq_some_iff.1 hc.closes).1
  rw [inside, List.length_drop, List.length_take_of_le (Nat.le_of_lt hj)]
  exact Nat.add_sub_cancel' hc.lt

/-- The stretch after an opening bracket ends at a symbol, if only at the bracket that closes. -/
theorem Symbol.Closes.exists_stretch (hc : Closes w i j) :
    ∃ (u : List Act) (rest : List Symbol) (s : Symbol), w.drop (i + 1) = u.map .act ++ rest ∧
      (∀ t, rest.head? = some t → t.isAct = false) ∧ w[i + 1 + u.length]? = some s ∧
      s.isAct = false := by
  obtain ⟨u, rest, hw, hrest⟩ := Symbol.exists_stretch (w.drop (i + 1))
  cases rest with
  | nil =>
    have hclose : (w.drop (i + 1))[j - (i + 1)]? = some .loopClose := by
      rw [List.getElem?_drop, Nat.add_sub_cancel' hc.lt, hc.closes]
    rw [hw, List.append_nil, List.getElem?_map] at hclose
    obtain ⟨a, -, ha⟩ := Option.map_eq_some_iff.1 hclose
    cases ha
  | cons s rest => exact ⟨u, s :: rest, s, hw, hrest, getElem?_of_drop hw, hrest s rfl⟩

end

namespace Linked

variable {w : List Symbol} {pairs : BracketPairs} {code : Array Instruction} {i j : Nat}
  {r : Instruction} {u : List Act} {c k : Int} (h : Linked w pairs code)
  (hn : Symbol.Nesting w w.length pairs []) (hc : Symbol.Closes w i j)
include h hn hc

/-- The opening instruction of a pair of brackets leads to the closing one. -/
theorem getElem?_open : code[index (w.take i)]? =
    some (Symbol.loopOpen.bare.withJump (some (index (w.take j) : Int))) := by
  rw [h.getElem?_index hc.opens rfl, getD_of_some (hn.joins_of_closes hc).1]
  rfl

/-- A sole run between two brackets is that of the text between them, which is a stretch. -/
theorem exists_stretch_of_soleRun?
    (hsole : (Program.soleRun? { code } (index (w.take i))).map (·.withJump none) = some r) :
    ∃ u : List Act, Symbol.inside w i j = u.map .act ∧ (Fold.ofActs u).build = some r := by
  obtain ⟨body, hbody, hr⟩ := Option.map_eq_some_iff.1 hsole
  obtain ⟨loop, hl, hb, -, ht, hk⟩ := Program.soleRun?_eq_some_iff.1 hbody
  obtain rfl := Option.some.inj (hl.symm.trans (h.getElem?_open hn hc))
  have hj : index (w.take j) = index (w.take i) + 2 := Int.ofNat_inj.1 (Option.some.inj ht)
  have hstretch := stretch_take_succ hc.opens rfl
  have hindex := index_take_succ hc.opens rfl
  obtain ⟨u, rest, s, hw, hrest, hs, ha⟩ := hc.exists_stretch
  cases hbuild : (Fold.ofActs u).build with
  | none =>
    -- where the body should be stands the symbol that ends the stretch
    have hplace := h.getElem?_index hs ha
    rw [index_of_folded_away hstretch hw hbuild, hindex] at hplace
    obtain rfl := Option.some.inj (hb.symm.trans hplace)
    cases s with
    | act a => cases ha
    | _ => cases hk
  | some r' =>
    -- and that symbol is the closing bracket, as the code leaves room for no other
    obtain ⟨body', hb', hr', hend⟩ := h.exists_build hstretch hw hrest hbuild
    rw [hindex] at hb' hend
    obtain rfl := Option.some.inj (hb'.symm.trans hb)
    obtain rfl : i + 1 + u.length = j :=
      (index_take_inj hs ha hc.closes rfl).1 (hend.trans hj.symm)
    have hlen : (w.take (i + 1)).length = i + 1 :=
      List.length_take_of_le (List.getElem?_eq_some_iff.1 hc.opens).1
    refine ⟨u, ?_, hbuild.trans (congrArg some (hr'.symm.trans hr))⟩
    rw [Symbol.inside, take_add_of_drop hw, List.drop_left' hlen]

/-- A stretch between two brackets has a sole run for its code if it does not fold away. -/
theorem soleRun?_of_stretch (hu : Symbol.inside w i j = u.map .act)
    (hbuild : (Fold.ofActs u).build = some r) :
    (Program.soleRun? { code } (index (w.take i))).map (·.withJump none) = some r := by
  have hw := hc.drop_eq
  have hend := hc.length_inside
  rw [hu] at hw
  rw [hu, List.length_map] at hend
  have hrest (s : Symbol) (hs : (w.drop j).head? = some s) : s.isAct = false := by
    rw [List.head?_drop, hc.closes] at hs
    cases hs
    rfl
  obtain ⟨body, hb, hr, hj⟩ :=
    h.exists_build (stretch_take_succ hc.opens rfl) hw hrest hbuild
  have hindex := index_take_succ hc.opens rfl
  rw [hindex] at hb
  rw [hend, hindex] at hj
  refine Option.map_eq_some_iff.2 ⟨body, Program.soleRun?_eq_some_iff.2 ?_, hr⟩
  refine ⟨_, h.getElem?_open hn hc, hb, rfl, ?_, ?_⟩
  · show some (index (w.take j) : Int) = _
    rw [hj]
  · obtain ⟨ds, base, low, hrun⟩ := Fold.eq_run_of_build hbuild
    exact congrArg Instruction.kind (hr.trans hrun)

/-- What can be said of the sole run between two brackets without its target can be said of the run
of the stretch between them. -/
theorem exists_soleRun?_iff {P : Instruction → Prop} (hP : ∀ x, P (x.withJump none) ↔ P x) :
    (∃ body, Program.soleRun? { code } (index (w.take i)) = some body ∧ P body) ↔
      ∃ u : List Act, Symbol.inside w i j = u.map .act ∧
        ∃ r, (Fold.ofActs u).build = some r ∧ P r := by
  constructor
  · rintro ⟨body, hb, hbody⟩
    obtain ⟨u, hu, hbuild⟩ :=
      h.exists_stretch_of_soleRun? hn hc (Option.map_eq_some_iff.2 ⟨body, hb, rfl⟩)
    exact ⟨u, hu, _, hbuild, (hP body).2 hbody⟩
  · rintro ⟨u, hu, r, hbuild, hr⟩
    obtain ⟨body, hb, rfl⟩ := Option.map_eq_some_iff.1 (h.soleRun?_of_stretch hn hc hu hbuild)
    exact ⟨body, hb, (hP body).1 hr⟩

theorem scanStepAt?_iff : Program.scanStepAt? { code } (index (w.take i)) = some k ↔
    Symbol.OnlyMoves (Symbol.inside w i j) k := by
  rw [Program.scanStepAt?_eq_some_iff, h.exists_soleRun?_iff hn hc fun _ => Iff.rfl]
  exact exists_congr fun u => and_congr_right fun _ => Fold.moves_iff

theorem controlDeltaAt?_iff : Program.controlDeltaAt? { code } (index (w.take i)) = some c ↔
    ∃ u : List Act, Symbol.inside w i j = u.map .act ∧ Act.Controls u c := by
  rw [Program.controlDeltaAt?_eq_some_iff, h.exists_soleRun?_iff hn hc fun _ => Iff.rfl]
  exact exists_congr fun u => and_congr_right fun _ => Fold.controls_iff

end Linked

/-! ### Marks and notes -/

namespace Program

variable {program : Program} {i : Instruction} {k : Nat}

theorem controlDeltaAt?_markScans (program : Program) (k : Nat) :
    program.markScans.controlDeltaAt? k = program.controlDeltaAt? k :=
  controlDeltaAt?_of_remarked (remarked_markScans program) k

theorem pairwise_diagnostics_markLinear (hnone : program.diagnostics = []) :
    program.markLinear.diagnostics.Pairwise fun d e => d.index < e.index := by
  rw [diagnostics_markLinear, hnone, List.nil_append, notes]
  refine List.Pairwise.filterMap _ (fun k l hlt d hd e he => ?_) List.pairwise_lt_range
  rwa [(noteAt?_eq_some_iff.1 hd).1, (noteAt?_eq_some_iff.1 he).1]

section
variable {w : List Symbol} {pairs : BracketPairs} {code : Array Instruction} {x : Instruction}
  {linear : Bool} {f : Int} (h : Linked w pairs code)
include h

theorem scanStep_withMarks (hx : (withMarks code linear).code[k]? = some x) :
    x.scanStep = scanStepAt? { code } k := by
  cases linear with
  | false => exact scanStep_markScans h hx
  | true =>
    obtain ⟨i, hi, rfl | ⟨delta, -, -, rfl⟩⟩ := exists_of_markLinear hx
    · exact scanStep_markScans h hi
    · have hscan := scanStep_markScans h hi
      exact hscan

theorem linearFactor_withMarks (hx : (withMarks code linear).code[k]? = some x) :
    x.linearFactor = some f ↔
      linear = true ∧ controlDeltaAt? { code } k = some (-f) ∧ -f < 0 := by
  cases linear with
  | false =>
    rw [linearFactor_markScans h hx]
    exact iff_of_false nofun nofun
  | true =>
    rw [withMarks, if_pos rfl, getElem?_markLinear, controlDeltaAt?_markScans] at hx
    obtain ⟨i, hi, rfl⟩ := Option.map_eq_some_iff.1 hx
    have hnone := linearFactor_markScans h hi
    cases controlDeltaAt? { code } k with
    | none => simp [hnone]
    | some delta =>
      by_cases hneg : delta < 0
      · simp only [if_pos hneg, Instruction.withFactor, Option.some.injEq, true_and]
        omega
      · simp only [if_neg hneg, hnone, Option.some.injEq, reduceCtorEq, true_and, false_iff]
        omega

end

end Program

namespace Linked
variable {w : List Symbol} {pairs : BracketPairs} {code : Array Instruction} {x : Instruction}
  {a : Nat} (hcode : Program.link w = .ok code) (h : Linked w pairs code)
  (hn : Symbol.Nesting w w.length pairs [])
include hcode h hn

theorem exists_place (hx : code[a]? = some x) (hk : x.kind = .loopOpen) :
    ∃ i j, Symbol.Closes w i j ∧ index (w.take i) = a ∧ Draft.place? w i = some a := by
  obtain ⟨i, j, hc, hi, -⟩ := h.loopAt_of_open hn hx hk
  exact ⟨i, j, hc, hi, (Draft.place?_eq hcode i).trans (congrArg some hi)⟩

theorem mem_diagnostics_iff (linear : Bool) (d : Diagnostic) :
    d ∈ (Program.withMarks code linear).diagnostics ↔ linear = true ∧ ∃ i j, Symbol.Closes w i j ∧
      Draft.place? w i = some d.index ∧ Symbol.Suspect (Symbol.inside w i j) d.controlDelta := by
  cases linear with
  | false => exact iff_of_false nofun nofun
  | true =>
    rw [Program.withMarks, if_pos rfl, Program.mem_diagnostics_markLinear rfl,
      Program.controlDeltaAt?_markScans, and_iff_right rfl]
    constructor
    · rintro ⟨hd, hle⟩
      obtain ⟨body, hb, -⟩ := Program.controlDeltaAt?_eq_some_iff.1 hd
      obtain ⟨loop, hl, -, hk, -⟩ := Program.soleRun?_eq_some_iff.1 hb
      obtain ⟨i, j, hc, hi, hplace⟩ := exists_place hcode h hn hl hk
      rw [← hi, h.controlDeltaAt?_iff hn hc] at hd
      exact ⟨i, j, hc, hplace, Symbol.suspect_iff.2 ⟨hd, hle⟩⟩
    · rintro ⟨i, j, hc, hplace, hs⟩
      rw [Draft.place?_eq hcode, Option.some.injEq] at hplace
      rw [← hplace, h.controlDeltaAt?_iff hn hc]
      exact Symbol.suspect_iff.1 hs

theorem markedByBodies (linear : Bool) :
    (Program.withMarks code linear).MarkedByBodies w linear where
  loops i j hc := by
    obtain ⟨x, hx, hk, -⟩ := h.exists_bracket linear hc.opens rfl
    refine ⟨_, x, Draft.place?_eq hcode i, hx, hk, fun f => ?_, fun k => ?_⟩
    · rw [Program.linearFactor_withMarks h hx, h.controlDeltaAt?_iff hn hc,
        Symbol.lowersControl_iff]
    · rw [Program.scanStep_withMarks h hx, h.scanStepAt?_iff hn hc]
  only_loops a x hx hu := by
    obtain ⟨body, close, hsole⟩ := (Program.marked_withMarks h linear).exists_sole hx hu
    have hmarks := Program.map_unmarked_eq h (Program.map_unmarked_withMarks h linear)
    obtain ⟨x', hx', hu'⟩ := exists_of_unmarked_eq hmarks.symm hx
    obtain ⟨i, j, hc, -, hplace⟩ := exists_place hcode h hn hx'
      ((Instruction.kind_eq_of_unmarked hu').trans hsole.loop_kind)
    exact ⟨i, j, hc, hplace⟩
  ordered := by
    cases linear with
    | false => exact .nil
    | true => exact Program.pairwise_diagnostics_markLinear rfl
  notes := mem_diagnostics_iff hcode h hn linear
  without_linear := by
    rintro rfl
    exact ⟨fun a x hx => Program.linearFactor_markScans h hx, rfl⟩

end Linked

namespace Program

/-- Compilation marks each loop, and makes a note of it, for what its body does. -/
theorem marks_exact (text : String) (linear : Bool)
    (hb : Symbol.Balanced (Symbol.ofText text)) :
    ∃ p, compile text linear = .ok p ∧ p.MarkedByBodies (Symbol.ofText text) linear := by
  obtain ⟨p, hp⟩ := (exists_compile_iff text linear).2 hb
  obtain ⟨code, hcode, rfl⟩ := exists_link hp
  obtain ⟨pairs, hpairs, hlinked⟩ := exists_linked hcode
  exact ⟨_, hp, hlinked.markedByBodies hcode (Symbol.nesting_of_pairBrackets hpairs) linear⟩

/-- The last body changes nothing in the end, but it has been left of its control cell. -/
theorem marks_exact_of_cancelled_detour :
    ∃ p, compile "[-][<][<+->]" true = .ok p ∧
      p.MarkedByBodies (Symbol.ofText "[-][<][<+->]") true ∧
      (∃ x, p.code[0]? = some x ∧ x.linearFactor = some 1) ∧
      (∃ x, p.code[3]? = some x ∧ x.scanStep = some (-1)) ∧
      { index := 6, controlDelta := 0 } ∈ p.diagnostics := by
  obtain ⟨p, hp, hm⟩ := marks_exact "[-][<][<+->]" true (by decide)
  have hplaces : Draft.place? (Symbol.ofText "[-][<][<+->]") 0 = some 0 ∧
      Draft.place? (Symbol.ofText "[-][<][<+->]") 3 = some 3 ∧
      Draft.place? (Symbol.ofText "[-][<][<+->]") 6 = some 6 := by decide +kernel
  refine ⟨p, hp, hm, ?_, ?_, ?_⟩
  · obtain ⟨a, x, ha, hx, -, hfactor, -⟩ :=
      hm.loops 0 2 ⟨by decide, by decide, by decide, by decide⟩
    obtain rfl := Option.some.inj (ha.symm.trans hplaces.1)
    exact ⟨x, hx, (hfactor 1).2 ⟨rfl, [.dec], by decide, by decide, by decide, by decide⟩⟩
  · obtain ⟨a, x, ha, hx, -, -, hscan⟩ :=
      hm.loops 3 5 ⟨by decide, by decide, by decide, by decide⟩
    obtain rfl := Option.some.inj (ha.symm.trans hplaces.2.1)
    exact ⟨x, hx, (hscan (-1)).2 ⟨[.left], by decide, by decide, by decide, by decide⟩⟩
  · have hidle (q : Int) : change q 0 [.left, .inc, .dec, .right] = 0 := by
      simp only [change, Act.amount, Act.offset]
      omega
    exact (hm.notes _).2 ⟨rfl, 6, 11, ⟨by decide, by decide, by decide, by decide⟩, hplaces.2.2,
      [.left, .inc, .dec, .right], by decide, by decide, by decide, by decide,
      .inr (.inr ⟨hidle, -1, by decide, by decide⟩)⟩

end Program

end TapeFold
