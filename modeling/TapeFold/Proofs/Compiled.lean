import TapeFold.Proofs.Refinement
import TapeFold.Proofs.Unobservable

/-!
# Compiled programs refine the reference

The refinement by linked code and the marks put together: the reference with unchecked moves and a
compiled program come to comparable ends if either comes to one (`compiled_of_unchecked`,
`unchecked_of_compiled`), and whatever the one has read and written, the other has in at most twice
as many steps (`reaches_compiled`).
-/

namespace TapeFold

open Machine

variable {settings : Settings} {input : Input} {output : Output} {w : List Symbol}
  {pairs : BracketPairs} {code : Array Instruction} {m m' c : Machine} {e e₁ e' : Ending} {n : Nat}

theorem Tape.covers_blank (size : Int) : (Tape.blank size).Covers (Tape.blank size) := by
  refine ⟨rfl, fun _ => rfl, Nat.le_refl _, ?_⟩
  have hsize : (Tape.blank size).size = (max 1 (min size Tape.maxInitialSize)).toNat :=
    Array.size_replicate
  rw [hsize]
  show (0 : Int) < _
  omega

theorem Reference.abreast_start (w : List Symbol) (hl : settings.maxSteps = none) :
    Abreast w (.start settings input output) (.start settings input output) :=
  ⟨0, Nat.zero_le _, rfl, rfl, rfl, Int.le_refl 0,
    ⟨Tape.covers_blank _, rfl, rfl, rfl, rfl, hl, hl, Nat.le_refl 0⟩⟩

theorem Comparable.trans (h : Comparable e e₁) (h' : SameEnd e₁ e') : Comparable e e' := by
  refine ⟨h.input.trans h'.input, h.output.trans h'.output, Nat.le_trans h'.steps h.steps, ?_⟩
  rw [← h'.halt, ← h'.tape]
  exact h.halt

theorem Machine.Synced.level {scans : Bool} (h : Synced code scans m c) : Level m c := by
  cases h with
  | same hl _ _ _ => exact hl
  | loop hl _ _ _ => exact hl

theorem Program.shedCode_withMarks (h : Linked w pairs code) (linear : Bool) :
    shedCode (withMarks code linear).code true = code :=
  map_unmarked_withMarks h linear

section
variable (h : Linked w pairs code) (linear : Bool) (hl : settings.maxSteps = none)
include h hl

theorem compiled_of_unchecked
    (he : Ends (Reference.uncheckedStep w.toArray pairs) (.start settings input output) e) :
    ∃ e', Ends (step (Program.withMarks code linear).code) (.start settings input output) e' ∧
      Comparable e e' := by
  obtain ⟨n, m', hw, hs⟩ := he
  obtain ⟨k, c', e₁, hw₁, hs₁, hS⟩ :=
    (Reference.simulates_linked h).stops (Reference.abreast_start w hl) hw hs
  obtain ⟨e', he', hS'⟩ := ends_of_shed (Program.marked_withMarks h linear) true hl
    (by rw [Program.shedCode_withMarks h]; exact ⟨k, c', hw₁, hs₁⟩)
  exact ⟨e', he', hS.trans hS'⟩

theorem unchecked_of_compiled
    (he : Ends (step (Program.withMarks code linear).code) (.start settings input output) e') :
    ∃ e, Ends (Reference.uncheckedStep w.toArray pairs) (.start settings input output) e ∧
      Comparable e e' := by
  obtain ⟨e₁, he₁, hS'⟩ := shed_of_ends (Program.marked_withMarks h linear) true hl he
  rw [Program.shedCode_withMarks h] at he₁
  obtain ⟨n, m', hw, hs⟩ := he₁
  obtain ⟨k, c', e, hw₁, hs₁, hS⟩ :=
    (Reference.simulates_linked h).stops_of_stops (Reference.abreast_start w hl) hw hs
  exact ⟨e, ⟨k, c', hw₁, hs₁⟩, hS.trans hS'⟩

/-- What the reference has read and written in `n` steps, the program has in `2 * n`. -/
theorem reaches_compiled
    (hw : Walk (Reference.uncheckedStep w.toArray pairs) n (.start settings input output) m') :
    ∃ j c', Walk (step (Program.withMarks code linear).code) j (.start settings input output) c' ∧
      c'.output = m'.output ∧ c'.input = m'.input ∧ j ≤ 2 * n := by
  obtain ⟨k, m₀, j, c₀, hk, hm₀, hc₀, ⟨-, -, -, -, -, -, hmc⟩, hout, hin⟩ :=
    (Reference.simulates_linked h).reaches (Reference.abreast_start w hl) hw
  rw [← Program.shedCode_withMarks h linear] at hc₀
  obtain ⟨k', c₁, j', c', hk', hc₁, hc', hsync, hout', hin'⟩ :=
    (simulates_shed (Program.marked_withMarks h linear) true).reaches
      (synced_start _ true hl) hc₀
  have hlevel := hsync.level
  refine ⟨j', c', hc', ?_, ?_, ?_⟩
  · rw [hout, hmc.output, hout', hlevel.output]
  · rw [hin, hmc.input, hin', hlevel.input]
  · rw [Reference.uncheckedStep_eq_counted] at hm₀
    have hstart : (Machine.start settings input output).steps = 0 := rfl
    have hm₀' := ((Reference.regular_uncheckedStep _ _).clock_of_walk hl hm₀).1
    have hc₀' := ((regular_code _).clock_of_walk hl hc₀).1
    have hc₁' := ((regular_code _).clock_of_walk hl hc₁).1
    have hc'' := ((regular_code _).clock_of_walk hl hc').1
    have hle := hmc.steps
    have hle' := hlevel.steps
    omega

end

end TapeFold
