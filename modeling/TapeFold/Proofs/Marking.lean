import Mathlib.Data.Option.Basic
import TapeFold.Proofs.Linking

/-!
# What marks say

Marks stand on loops of one run whose closing bracket leads back to them (`SoleLoop`), and say of that
run what they are meant to say (`Marked`). Nothing else of the code depends on them: without its marks
it is the linked code again (`Program.map_unmarked_withMarks`).
-/

namespace TapeFold

/-- The instruction without its marks. -/
def Instruction.unmarked (i : Instruction) : Instruction := (i.withFactor none).withScan none

theorem Instruction.kind_eq_of_unmarked {i j : Instruction} (h : i.unmarked = j.unmarked) :
    i.kind = j.kind := by
  have hk : i.unmarked.kind = j.unmarked.kind := congrArg kind h
  exact hk

theorem Instruction.jumpTarget_eq_of_unmarked {i j : Instruction} (h : i.unmarked = j.unmarked) :
    i.jumpTarget = j.jumpTarget := by
  have ht : i.unmarked.jumpTarget = j.unmarked.jumpTarget := congrArg jumpTarget h
  exact ht

theorem Instruction.effect_eq_of_unmarked {i j : Instruction} (h : i.unmarked = j.unmarked) :
    i.netShift = j.netShift ∧ i.deltas = j.deltas ∧ i.minOffset = j.minOffset ∧
      ∀ q, i.deltaAt q = j.deltaAt q := by
  have hs : i.unmarked.netShift = j.unmarked.netShift := congrArg netShift h
  have hd : i.unmarked.deltas = j.unmarked.deltas := congrArg deltas h
  have hm : i.unmarked.minOffset = j.unmarked.minOffset := congrArg minOffset h
  have hq (q : Int) : i.unmarked.deltaAt q = j.unmarked.deltaAt q := congrArg (deltaAt · q) h
  exact ⟨hs, hd, hm, hq⟩

/-- The loop that opens at `k` consists of the run `body`. -/
structure SoleLoop (code : Array Instruction) (k : Nat) (loop body close : Instruction) : Prop where
  loop_at : code[k]? = some loop
  loop_kind : loop.kind = .loopOpen
  loop_target : loop.jumpTarget = some ((k + 2 : Nat) : Int)
  body_at : code[k + 1]? = some body
  body_kind : body.kind = .run
  close_at : code[k + 2]? = some close
  close_kind : close.kind = .loopClose
  close_target : close.jumpTarget = some k

/-- All loops are linked, and the marks on them say what is so. -/
structure Marked (code : Array Instruction) : Prop where
  linked : ∀ {k : Nat} {i : Instruction}, code[k]? = some i →
    i.kind = .loopOpen ∨ i.kind = .loopClose → ∃ t : Nat, i.jumpTarget = some (t : Int)
  linear : ∀ {k : Nat} {loop : Instruction} {f : Int}, code[k]? = some loop →
    loop.linearFactor = some f → loop.scanStep = none ∧ 0 < f ∧
      ∃ body close, SoleLoop code k loop body close ∧ body.netShift = 0 ∧ body.deltaAt 0 = -f
  scan : ∀ {k : Nat} {loop : Instruction} {d : Int}, code[k]? = some loop →
    loop.scanStep = some d → loop.linearFactor = none ∧ d ≠ 0 ∧
      ∃ body close, SoleLoop code k loop body close ∧
        body.netShift = d ∧ body.deltas = [] ∧ body.minOffset = none

/-- The code differs at most in the marks on opening loops. -/
structure Remarked (code code' : Array Instruction) : Prop where
  unmarked : code'.map Instruction.unmarked = code.map Instruction.unmarked
  others : ∀ (k : Nat) (i : Instruction), i.kind ≠ .loopOpen →
    (code'[k]? = some i ↔ code[k]? = some i)

/-! ### Code up to marks -/

section
variable {code code' : Array Instruction} {i loop body close : Instruction} {k : Nat}

theorem exists_of_unmarked_eq (h : code'.map Instruction.unmarked = code.map Instruction.unmarked)
    (hi : code[k]? = some i) : ∃ i', code'[k]? = some i' ∧ i'.unmarked = i.unmarked := by
  have hk := congrArg (·[k]?) h
  simp only [Array.getElem?_map, hi, Option.map_some] at hk
  exact Option.map_eq_some_iff.1 hk

theorem SoleLoop.transport {loop' : Instruction} (h : SoleLoop code k loop body close)
    (hc : code'.map Instruction.unmarked = code.map Instruction.unmarked)
    (hl : code'[k]? = some loop') :
    ∃ body' close', SoleLoop code' k loop' body' close' ∧ body'.unmarked = body.unmarked := by
  obtain ⟨loop'', hl'', hu⟩ := exists_of_unmarked_eq hc h.loop_at
  obtain ⟨body', hb, hb'⟩ := exists_of_unmarked_eq hc h.body_at
  obtain ⟨close', he, he'⟩ := exists_of_unmarked_eq hc h.close_at
  obtain rfl : loop'' = loop' := Option.some.inj (hl''.symm.trans hl)
  refine ⟨body', close', ⟨hl, ?_, ?_, hb, ?_, he, ?_, ?_⟩, hb'⟩
  · exact (Instruction.kind_eq_of_unmarked hu).trans h.loop_kind
  · exact (Instruction.jumpTarget_eq_of_unmarked hu).trans h.loop_target
  · exact (Instruction.kind_eq_of_unmarked hb').trans h.body_kind
  · exact (Instruction.kind_eq_of_unmarked he').trans h.close_kind
  · exact (Instruction.jumpTarget_eq_of_unmarked he').trans h.close_target

end

namespace Remarked
variable {code code' code'' : Array Instruction}

theorem refl (code : Array Instruction) : Remarked code code := ⟨rfl, fun _ _ _ => Iff.rfl⟩

theorem trans (h : Remarked code code') (h' : Remarked code' code'') : Remarked code code'' :=
  ⟨h'.unmarked.trans h.unmarked, fun k i hi => (h'.others k i hi).trans (h.others k i hi)⟩

theorem size_eq (h : Remarked code code') : code'.size = code.size := by
  rw [← Array.size_map (f := Instruction.unmarked), h.unmarked, Array.size_map]

theorem of_mapIdx {f : Nat → Instruction → Instruction} (h : ∀ (k : Nat) (i : Instruction),
    code[k]? = some i → f k i = i ∨ i.kind = .loopOpen ∧ (f k i).unmarked = i.unmarked) :
    Remarked code (code.mapIdx f) := by
  constructor
  · refine Array.ext_getElem? fun k => ?_
    rw [Array.getElem?_map, Array.getElem?_map, Array.getElem?_mapIdx]
    match hi : code[k]? with
    | none => rfl
    | some i =>
      rcases h k i hi with hf | ⟨-, hf⟩
      · exact congrArg (some ·.unmarked) hf
      · exact congrArg some hf
  · intro k i hne
    rw [Array.getElem?_mapIdx]
    match hi : code[k]? with
    | none => exact Iff.rfl
    | some j =>
      rcases h k j hi with hf | ⟨hk, hu⟩
      · rw [Option.map_some, hf]
      · have hk' : (f k j).kind = .loopOpen := (Instruction.kind_eq_of_unmarked hu).trans hk
        constructor
        · intro he
          rw [← Option.some.inj he] at hne
          exact absurd hk' hne
        · intro he
          rw [← Option.some.inj he] at hne
          exact absurd hk hne

end Remarked

namespace Program

/-- What a pass makes of the instruction `i` at `k`. -/
def remark (program : Program) (k : Nat) (i : Instruction) : Pass → Instruction
  | .scan =>
    match program.scanStepAt? k with
    | some step => i.withScan (some step)
    | none => i
  | .linear =>
    match program.controlDeltaAt? k with
    | some delta => if delta < 0 then i.withFactor (some (-delta)) else i
    | none => i

/-- A pass all at once. -/
def marked (program : Program) : Pass → Program
  | .scan => program.markScans
  | .linear => program.markLinear

variable {program : Program} {code : Array Instruction} {i body loop : Instruction} {k : Nat}
  {w : List Symbol} {pairs : BracketPairs}

theorem getElem?_markScans (program : Program) (k : Nat) :
    program.markScans.code[k]? = program.code[k]?.map fun i =>
      match program.scanStepAt? k with
      | some step => i.withScan (some step)
      | none => i := Array.getElem?_mapIdx

theorem getElem?_markLinear (program : Program) (k : Nat) :
    program.markLinear.code[k]? = program.code[k]?.map fun i =>
      match program.controlDeltaAt? k with
      | some delta => if delta < 0 then i.withFactor (some (-delta)) else i
      | none => i := Array.getElem?_mapIdx

/-- Marking linear loops leaves an instruction alone or gives it a factor. -/
theorem exists_of_markLinear {program : Program} {k : Nat} {loop : Instruction}
    (hl : program.markLinear.code[k]? = some loop) :
    ∃ i, program.code[k]? = some i ∧ (loop = i ∨ ∃ delta, program.controlDeltaAt? k = some delta ∧
      delta < 0 ∧ loop = i.withFactor (some (-delta))) := by
  rw [getElem?_markLinear] at hl
  obtain ⟨i, hi, rfl⟩ := Option.map_eq_some_iff.1 hl
  refine ⟨i, hi, ?_⟩
  cases program.controlDeltaAt? k with
  | none => exact .inl rfl
  | some delta =>
    by_cases hneg : delta < 0
    · exact .inr ⟨delta, rfl, hneg, if_pos hneg⟩
    · exact .inl (if_neg hneg)

theorem map_withFactor_markLinear
    (h : ∀ (k : Nat) (i : Instruction), program.code[k]? = some i → i.linearFactor = none) :
    program.markLinear.code.map (·.withFactor none) = program.code := by
  refine Array.ext_getElem? fun k => ?_
  rw [Array.getElem?_map, getElem?_markLinear, Option.map_map]
  match hi : program.code[k]? with
  | none => rfl
  | some i =>
    have hid : i.withFactor none = i := by
      rw [← h k i hi]
      rfl
    refine congrArg some (Eq.trans ?_ hid)
    show Instruction.withFactor (match program.controlDeltaAt? k with | some d => _ | none => _) _ = _
    split
    · split <;> rfl
    · rfl

theorem soleRun?_eq_some_iff : program.soleRun? k = some body ↔
    ∃ loop, program.code[k]? = some loop ∧ program.code[k + 1]? = some body ∧
      loop.kind = .loopOpen ∧ loop.jumpTarget = some ((k + 2 : Nat) : Int) ∧ body.kind = .run := by
  unfold soleRun?
  constructor
  · intro h
    obtain ⟨loop, hl, h⟩ := Option.bind_eq_some_iff.1 h
    obtain ⟨body', hb, h⟩ := Option.bind_eq_some_iff.1 h
    obtain ⟨_, hg, h⟩ := Option.bind_eq_some_iff.1 h
    obtain ⟨h₁, h₂, h₃⟩ := (Option.guard_eq_some' _).1 hg
    cases h
    exact ⟨loop, hl, hb, h₁, h₂, h₃⟩
  · rintro ⟨loop, hl, hb, h₁, h₂, h₃⟩
    refine Option.bind_eq_some_iff.2 ⟨loop, hl, Option.bind_eq_some_iff.2 ⟨body, hb, ?_⟩⟩
    exact Option.bind_eq_some_iff.2 ⟨(), (Option.guard_eq_some' _).2 ⟨h₁, h₂, h₃⟩, rfl⟩

theorem scanStepAt?_eq_some_iff {d : Int} : program.scanStepAt? k = some d ↔
    ∃ body, program.soleRun? k = some body ∧ body.deltas = [] ∧ body.minOffset = none ∧
      d ≠ 0 ∧ body.netShift = d := by
  unfold scanStepAt?
  constructor
  · intro h
    obtain ⟨body, hb, h⟩ := Option.bind_eq_some_iff.1 h
    obtain ⟨_, hg, h⟩ := Option.bind_eq_some_iff.1 h
    obtain ⟨h₁, h₂, h₃⟩ := (Option.guard_eq_some' _).1 hg
    cases h
    exact ⟨body, hb, h₁, h₂, h₃, rfl⟩
  · rintro ⟨body, hb, h₁, h₂, h₃, rfl⟩
    refine Option.bind_eq_some_iff.2 ⟨body, hb, ?_⟩
    exact Option.bind_eq_some_iff.2 ⟨(), (Option.guard_eq_some' _).2 ⟨h₁, h₂, h₃⟩, rfl⟩

theorem controlDeltaAt?_eq_some_iff {d : Int} : program.controlDeltaAt? k = some d ↔
    ∃ body, program.soleRun? k = some body ∧ body.netShift = 0 ∧ body.baseOffset ≤ 0 ∧
      body.deltaAt 0 = d := by
  unfold controlDeltaAt?
  constructor
  · intro h
    obtain ⟨body, hb, h⟩ := Option.bind_eq_some_iff.1 h
    obtain ⟨_, hg, h⟩ := Option.bind_eq_some_iff.1 h
    obtain ⟨h₁, h₂⟩ := (Option.guard_eq_some' _).1 hg
    cases h
    exact ⟨body, hb, h₁, h₂, rfl⟩
  · rintro ⟨body, hb, h₁, h₂, rfl⟩
    refine Option.bind_eq_some_iff.2 ⟨body, hb, ?_⟩
    exact Option.bind_eq_some_iff.2 ⟨(), (Option.guard_eq_some' _).2 ⟨h₁, h₂⟩, rfl⟩

theorem kind_of_soleRun? (h : program.soleRun? k = some body) (hi : program.code[k]? = some i) :
    i.kind = .loopOpen := by
  obtain ⟨loop, hl, -, hk, -⟩ := soleRun?_eq_some_iff.1 h
  obtain rfl := Option.some.inj (hi.symm.trans hl)
  exact hk

/-! ### What marking leaves alone -/

/-- A pass leaves an instruction alone or changes the marks of an opening loop. -/
theorem remark_cases (hi : program.code[k]? = some i) (pass : Pass) :
    program.remark k i pass = i ∨
      i.kind = .loopOpen ∧ (program.remark k i pass).unmarked = i.unmarked := by
  cases pass with
  | scan =>
    cases hs : program.scanStepAt? k with
    | none => exact .inl (by rw [remark, hs])
    | some step =>
      obtain ⟨body, hb, -⟩ := scanStepAt?_eq_some_iff.1 hs
      exact .inr ⟨kind_of_soleRun? hb hi, by rw [remark, hs]; rfl⟩
  | linear =>
    cases hs : program.controlDeltaAt? k with
    | none => exact .inl (by rw [remark, hs])
    | some delta =>
      obtain ⟨body, hb, -⟩ := controlDeltaAt?_eq_some_iff.1 hs
      by_cases hneg : delta < 0
      · exact .inr ⟨kind_of_soleRun? hb hi, by simp only [remark, hs, if_pos hneg]; rfl⟩
      · exact .inl (by simp only [remark, hs, if_neg hneg])

theorem code_marked (program : Program) (pass : Pass) :
    (program.marked pass).code = program.code.mapIdx fun k i => program.remark k i pass := by
  cases pass <;> rfl

theorem getElem?_marked (program : Program) (pass : Pass) (k : Nat) :
    (program.marked pass).code[k]? = program.code[k]?.map fun i => program.remark k i pass := by
  rw [code_marked, Array.getElem?_mapIdx]

theorem remarked_marked (program : Program) (pass : Pass) :
    Remarked program.code (program.marked pass).code := by
  rw [code_marked]
  exact .of_mapIdx fun k i hi => remark_cases hi pass

theorem remarked_markScans (program : Program) : Remarked program.code program.markScans.code :=
  remarked_marked program .scan

theorem remarked_markLinear (program : Program) : Remarked program.code program.markLinear.code :=
  remarked_marked program .linear

theorem map_unmarked_markScans (program : Program) :
    program.markScans.code.map Instruction.unmarked = program.code.map Instruction.unmarked :=
  (remarked_markScans program).unmarked

theorem map_unmarked_markLinear (program : Program) :
    program.markLinear.code.map Instruction.unmarked = program.code.map Instruction.unmarked :=
  (remarked_markLinear program).unmarked

section
variable {program' : Program} (h : Remarked program.code program'.code)
include h

/-- Marks hide no sole run and show no other. -/
theorem soleRun?_of_remarked (k : Nat) : program'.soleRun? k = program.soleRun? k := by
  refine Option.ext fun body => ?_
  rw [soleRun?_eq_some_iff, soleRun?_eq_some_iff]
  constructor
  · rintro ⟨loop, hl, hb, hk, ht, hr⟩
    obtain ⟨loop', hl', hu⟩ := exists_of_unmarked_eq h.unmarked.symm hl
    exact ⟨loop', hl', (h.others _ _ (by rw [hr]; nofun)).1 hb,
      (Instruction.kind_eq_of_unmarked hu).trans hk,
      (Instruction.jumpTarget_eq_of_unmarked hu).trans ht, hr⟩
  · rintro ⟨loop, hl, hb, hk, ht, hr⟩
    obtain ⟨loop', hl', hu⟩ := exists_of_unmarked_eq h.unmarked hl
    exact ⟨loop', hl', (h.others _ _ (by rw [hr]; nofun)).2 hb,
      (Instruction.kind_eq_of_unmarked hu).trans hk,
      (Instruction.jumpTarget_eq_of_unmarked hu).trans ht, hr⟩

theorem controlDeltaAt?_of_remarked (k : Nat) :
    program'.controlDeltaAt? k = program.controlDeltaAt? k := by
  unfold controlDeltaAt?
  rw [soleRun?_of_remarked h]

end

/-! ### Notes -/

/-- The note on the loop that opens at `k`, if its body does not lower the control cell. -/
def noteAt? (program : Program) (k : Nat) : Option Diagnostic := do
  let delta ← program.controlDeltaAt? k
  guard (0 ≤ delta)
  return { index := k, controlDelta := delta }

/-- The notes on the linear loops, in the order in which they are made. -/
def notes (program : Program) : List Diagnostic :=
  (List.range program.code.size).filterMap program.noteAt?

theorem diagnostics_markLinear (program : Program) :
    program.markLinear.diagnostics = program.diagnostics ++ program.notes := rfl

theorem noteAt?_eq_some_iff {d : Diagnostic} : program.noteAt? k = some d ↔
    d.index = k ∧ program.controlDeltaAt? k = some d.controlDelta ∧ 0 ≤ d.controlDelta := by
  unfold noteAt?
  constructor
  · intro h
    obtain ⟨delta, hd, h⟩ := Option.bind_eq_some_iff.1 h
    obtain ⟨_, hg, h⟩ := Option.bind_eq_some_iff.1 h
    cases h
    exact ⟨rfl, hd, (Option.guard_eq_some' _).1 hg⟩
  · rintro ⟨rfl, hd, hle⟩
    refine Option.bind_eq_some_iff.2 ⟨_, hd, Option.bind_eq_some_iff.2 ⟨(), ?_, rfl⟩⟩
    exact (Option.guard_eq_some' _).2 hle

/-- The notes on linear loops are those on the loops whose control change is not negative. -/
theorem mem_diagnostics_markLinear (hnone : program.diagnostics = []) {d : Diagnostic} :
    d ∈ program.markLinear.diagnostics ↔
      program.controlDeltaAt? d.index = some d.controlDelta ∧ 0 ≤ d.controlDelta := by
  rw [diagnostics_markLinear, hnone, List.nil_append, notes, List.mem_filterMap]
  constructor
  · rintro ⟨k, -, h⟩
    obtain ⟨rfl, hd⟩ := noteAt?_eq_some_iff.1 h
    exact hd
  · rintro ⟨hd, hle⟩
    obtain ⟨body, hb, -⟩ := controlDeltaAt?_eq_some_iff.1 hd
    obtain ⟨loop, hl, -⟩ := soleRun?_eq_some_iff.1 hb
    exact ⟨d.index, List.mem_range.2 (Array.getElem?_eq_some_iff.1 hl).1,
      noteAt?_eq_some_iff.2 ⟨rfl, hd, hle⟩⟩

/-! ### Marks of linked code -/

section
variable (hc : Linked w pairs code)
include hc

theorem map_unmarked_linked : code.map Instruction.unmarked = code := by
  refine Array.ext_getElem? fun k => ?_
  rw [Array.getElem?_map]
  match hi : code[k]? with
  | none => rfl
  | some i =>
    obtain ⟨hf, hs⟩ := hc.unmarked hi
    have hid : i.unmarked = (i.withFactor i.linearFactor).withScan i.scanStep := by
      rw [hf, hs]
      rfl
    exact congrArg some hid

variable (hp : program.code.map Instruction.unmarked = code)
include hp

theorem map_unmarked_eq : program.code.map Instruction.unmarked = code.map Instruction.unmarked := by
  rw [hp, map_unmarked_linked hc]

theorem linked_of_unmarked (hi : program.code[k]? = some i)
    (hk : i.kind = .loopOpen ∨ i.kind = .loopClose) : ∃ t : Nat, i.jumpTarget = some (t : Int) := by
  obtain ⟨i', hi', hu⟩ := exists_of_unmarked_eq (map_unmarked_eq hc hp).symm hi
  have hkind : i'.kind = i.kind := Instruction.kind_eq_of_unmarked hu
  have htarget : i'.jumpTarget = i.jumpTarget := Instruction.jumpTarget_eq_of_unmarked hu
  rw [← htarget]
  rcases hk with hk | hk
  · obtain ⟨t, -, ht, -⟩ := hc.exists_close hi' (hkind.trans hk)
    exact ⟨t, ht⟩
  · obtain ⟨t, -, ht, -⟩ := hc.exists_open hi' (hkind.trans hk)
    exact ⟨t, ht⟩

theorem soleLoop_of_soleRun? (h : program.soleRun? k = some body) :
    ∃ loop close, SoleLoop program.code k loop body close := by
  obtain ⟨loop, hl, hb, hk, ht, hr⟩ := soleRun?_eq_some_iff.1 h
  obtain ⟨loop', hl', hu⟩ := exists_of_unmarked_eq (map_unmarked_eq hc hp).symm hl
  obtain ⟨t, c, ht', hc', hck, hct⟩ :=
    hc.exists_close hl' ((Instruction.kind_eq_of_unmarked hu).trans hk)
  have heq : (t : Int) = ((k + 2 : Nat) : Int) :=
    Option.some.inj (ht'.symm.trans ((Instruction.jumpTarget_eq_of_unmarked hu).trans ht))
  obtain rfl : t = k + 2 := Int.ofNat_inj.1 heq
  obtain ⟨c', hc'', hu'⟩ := exists_of_unmarked_eq (map_unmarked_eq hc hp) hc'
  exact ⟨loop, c', hl, hk, ht, hb, hr, hc'', (Instruction.kind_eq_of_unmarked hu').trans hck,
    (Instruction.jumpTarget_eq_of_unmarked hu').trans hct⟩

end

section
variable (hc : Linked w pairs code)
include hc

theorem linearFactor_markScans (hi : (markScans { code }).code[k]? = some i) :
    i.linearFactor = none := by
  rw [getElem?_markScans] at hi
  obtain ⟨j, hj, rfl⟩ := Option.map_eq_some_iff.1 hi
  split
  · exact (hc.unmarked hj).1
  · exact (hc.unmarked hj).1

theorem scanStep_markScans (hi : (markScans { code }).code[k]? = some i) :
    i.scanStep = scanStepAt? { code } k := by
  rw [getElem?_markScans] at hi
  obtain ⟨j, hj, rfl⟩ := Option.map_eq_some_iff.1 hi
  cases scanStepAt? { code } k with
  | none => exact (hc.unmarked hj).2
  | some step => rfl

theorem map_unmarked_scans : (markScans { code }).code.map Instruction.unmarked = code :=
  (map_unmarked_markScans _).trans (map_unmarked_linked hc)

theorem marked_scans : Marked (markScans { code }).code := by
  have hp := map_unmarked_scans hc
  refine ⟨linked_of_unmarked hc hp, fun hl hf => ?_, fun {k loop d} hl hd => ?_⟩
  · rw [linearFactor_markScans hc hl] at hf
    cases hf
  · refine ⟨linearFactor_markScans hc hl, ?_⟩
    rw [scanStep_markScans hc hl] at hd
    obtain ⟨body, hb, hds, hlow, hne, hshift⟩ := scanStepAt?_eq_some_iff.1 hd
    obtain ⟨_, _, hsole⟩ := soleLoop_of_soleRun? hc (map_unmarked_linked hc) hb
    obtain ⟨body', close', hsole', hu⟩ := hsole.transport (map_unmarked_markScans { code }) hl
    obtain ⟨h₁, h₂, h₃, -⟩ := Instruction.effect_eq_of_unmarked hu
    exact ⟨hne, body', close', hsole', h₁.trans hshift, h₂.trans hds, h₃.trans hlow⟩

/-- A loop of a run that stays where it is is no scan. -/
theorem scanStep_of_controlDeltaAt? {delta : Int} (hi : (markScans { code }).code[k]? = some i)
    (hs : (markScans { code }).controlDeltaAt? k = some delta) : i.scanStep = none := by
  cases hd : i.scanStep with
  | none => rfl
  | some d =>
    obtain ⟨-, hne, body, _, hsole, hshift, -⟩ := (marked_scans hc).scan hi hd
    obtain ⟨body', hb, hshift', -⟩ := controlDeltaAt?_eq_some_iff.1 hs
    obtain ⟨_, -, hb', -⟩ := soleRun?_eq_some_iff.1 hb
    obtain rfl := Option.some.inj (hsole.body_at.symm.trans hb')
    exact absurd (hshift.symm.trans hshift') hne

theorem marked_linear : Marked (markLinear (markScans { code })).code := by
  have hscans := map_unmarked_scans hc
  have hp : (markLinear (markScans { code })).code.map Instruction.unmarked = code :=
    (map_unmarked_markLinear _).trans hscans
  have hsame := map_unmarked_markLinear (markScans { code })
  refine ⟨linked_of_unmarked hc hp, fun {k loop f} hl hf => ?_, fun {k loop d} hl hd => ?_⟩
  · obtain ⟨i, hi, rfl | ⟨delta, hs, hneg, rfl⟩⟩ := exists_of_markLinear hl
    · cases (linearFactor_markScans hc hi).symm.trans hf
    obtain rfl : -delta = f := Option.some.inj hf
    obtain ⟨body, hb, hshift, -, hdelta⟩ := controlDeltaAt?_eq_some_iff.1 hs
    obtain ⟨_, _, hsole⟩ := soleLoop_of_soleRun? hc hscans hb
    obtain ⟨body', close', hsole', hu⟩ := hsole.transport hsame hl
    obtain ⟨h₁, -, -, h₂⟩ := Instruction.effect_eq_of_unmarked hu
    have hnone := scanStep_of_controlDeltaAt? hc hi hs
    exact ⟨hnone, by omega, body', close', hsole',
      h₁.trans hshift, by rw [h₂, hdelta, Int.neg_neg]⟩
  · obtain ⟨i, hi, rfl | ⟨delta, hs, -, rfl⟩⟩ := exists_of_markLinear hl
    · obtain ⟨hf, hne, body, close, hsole, hshift, hds, hlow⟩ := (marked_scans hc).scan hi hd
      obtain ⟨body', close', hsole', hu⟩ := hsole.transport hsame hl
      obtain ⟨h₁, h₂, h₃, -⟩ := Instruction.effect_eq_of_unmarked hu
      exact ⟨hf, hne, body', close', hsole', h₁.trans hshift, h₂.trans hds, h₃.trans hlow⟩
    · have hnone := scanStep_of_controlDeltaAt? hc hi hs
      cases hnone.symm.trans hd

end

/-! ### Compiled programs -/

/-- Linked code with its marks, as compilation leaves it. -/
def withMarks (code : Array Instruction) (linear : Bool) : Program :=
  if linear then (markScans { code }).markLinear else markScans { code }

theorem remarked_withMarks (code : Array Instruction) (linear : Bool) :
    Remarked code (withMarks code linear).code := by
  have hscans : Remarked code (markScans { code }).code := remarked_markScans { code }
  cases linear with
  | false => exact hscans
  | true => exact hscans.trans (remarked_markLinear _)

theorem marked_withMarks (hc : Linked w pairs code) (linear : Bool) :
    Marked (withMarks code linear).code := by
  cases linear with
  | false => exact marked_scans hc
  | true => exact marked_linear hc

theorem map_unmarked_withMarks (hc : Linked w pairs code) (linear : Bool) :
    (withMarks code linear).code.map Instruction.unmarked = code :=
  (remarked_withMarks code linear).unmarked.trans (map_unmarked_linked hc)

/-- Without its factors a program is what compilation makes of it if it marks no linear loops. -/
theorem map_withFactor_withMarks (hc : Linked w pairs code) :
    (withMarks code true).code.map (·.withFactor none) = (withMarks code false).code :=
  map_withFactor_markLinear fun _ _ => linearFactor_markScans hc

theorem exists_compile {text : String} (hb : Symbol.Balanced (Symbol.ofText text)) :
    ∃ code pairs, pairBrackets (Symbol.ofText text) = .ok pairs ∧
      Linked (Symbol.ofText text) pairs code ∧
      ∀ linear, compile text linear = .ok (withMarks code linear) := by
  obtain ⟨pairs, hpairs⟩ := Symbol.balanced_iff.1 hb
  have hagree := link_agrees (Symbol.ofText text)
  rw [hpairs] at hagree
  match hl : link (Symbol.ofText text), hagree with
  | .ok code, .linked h =>
    refine ⟨code, pairs, hpairs, h, fun linear => ?_⟩
    rw [compile, ofSymbols, hl]
    rfl

theorem exists_link {text : String} {linear : Bool} {p : Program}
    (h : compile text linear = .ok p) :
    ∃ code, link (Symbol.ofText text) = .ok code ∧ p = withMarks code linear := by
  rw [compile, ofSymbols] at h
  match hl : link (Symbol.ofText text) with
  | .ok code =>
    rw [hl] at h
    cases h
    exact ⟨code, rfl, rfl⟩
  | .error e =>
    rw [hl] at h
    cases h

theorem exists_linked (h : link w = .ok code) :
    ∃ pairs, pairBrackets w = .ok pairs ∧ Linked w pairs code := by
  have hagree := link_agrees w
  rw [h] at hagree
  match hp : pairBrackets w, hagree with
  | .ok pairs, .linked h => exact ⟨pairs, rfl, h⟩

theorem exists_compile_iff (text : String) (linear : Bool) :
    (∃ p, compile text linear = .ok p) ↔ Symbol.Balanced (Symbol.ofText text) := by
  constructor
  · rintro ⟨p, hp⟩
    obtain ⟨code, hcode, -⟩ := exists_link hp
    obtain ⟨pairs, hpairs, -⟩ := exists_linked hcode
    exact Symbol.balanced_iff.2 ⟨pairs, hpairs⟩
  · intro hb
    obtain ⟨code, -, -, -, hcompile⟩ := exists_compile hb
    exact ⟨_, hcompile linear⟩

/-- Compilation fails just as pairing does. -/
theorem compile_eq_error_iff {text : String} {linear : Bool} {e : BracketError} :
    compile text linear = .error e ↔ pairBrackets (Symbol.ofText text) = .error e := by
  have hagree := link_agrees (Symbol.ofText text)
  rw [compile, ofSymbols]
  match hl : link (Symbol.ofText text), hp : pairBrackets (Symbol.ofText text), hagree with
  | .ok code, .ok pairs, .linked _ =>
    constructor
    · intro h
      cases h
    · intro h
      cases h
  | .error _, .error _, .failed e' =>
    constructor
    · intro h
      cases h
      rfl
    · intro h
      cases h
      rfl

end Program

end TapeFold
