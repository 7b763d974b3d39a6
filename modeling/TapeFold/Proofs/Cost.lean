import TapeFold.Proofs.Equivalence

/-!
# The cost of a compiled program

A compiled program takes at most twice as many steps as the reference, at every point of a run: with
twice the limit it has written and read at least as much (`runSource_within_twice`).
-/

namespace TapeFold

open Machine

section
variable {settings : Settings} {input : Input} {output : Output} {w : List Symbol}
  {pairs : BracketPairs} {code : Array Instruction} {m' : Machine} {e : Ending} {n k : Nat}

variable (h : Linked w pairs code) (linear : Bool)
include h

theorem goesOn_of_unchecked
    (hw : Walk (Reference.uncheckedStep w.toArray pairs) k
      (.start (settings.withLimit none) input output) m') (hk : k ≤ n) :
    ∃ e', Ends (step (Program.withMarks code linear).code)
      (.start (settings.withLimit (some (2 * n : Nat))) input output) e' ∧ GoesOn m' e'.machine := by
  have hregular := regular_code (Program.withMarks code linear).code
  obtain ⟨j, c', hc', hout, hin, hj⟩ := reaches_compiled h linear rfl hw
  have hlimit : (settings.withLimit (some (2 * n : Nat))).maxSteps = some ((2 * n : Nat) : Int) := rfl
  have hmc := limited_start input output hlimit
  have hstart : (Machine.start (settings.withLimit none) input output).steps = 0 := rfl
  obtain ⟨c, hc, hl⟩ := hregular.walk_limited hmc hc' (.inl (by
    show ((0 + j : Nat) : Int) ≤ _
    omega))
  obtain ⟨e', he'⟩ := hregular.exists_ends (c := .start (settings.withLimit _) input output) hlimit
  have hgo := hregular.goesOn_of_ends hc he'
  refine ⟨e', he', ?_, ?_⟩
  · rw [← hin, hl.input]
    exact hgo.input
  · rw [← hout, hl.output]
    exact hgo.output

/-- Within `2 * n` steps the program reads and writes what the reference does within `n`. -/
theorem goesOn_of_limited
    (he : Ends (Reference.step w.toArray pairs)
      (.start (settings.withLimit (some n)) input output) e) :
    ∃ e', Ends (step (Program.withMarks code linear).code)
      (.start (settings.withLimit (some (2 * n : Nat))) input output) e' ∧
      GoesOn e.machine e'.machine := by
  have hlimit : (settings.withLimit (some n)).maxSteps = some (n : Int) := rfl
  have hlimit' : (settings.withLimit (some (2 * n : Nat))).maxSteps = some ((2 * n : Nat) : Int) := rfl
  have hstart : (Machine.start (settings.withLimit none) input output).steps = 0 := rfl
  have hpast {k : Nat} {m' : Machine}
      (hw : Walk (Reference.uncheckedStep w.toArray pairs) k
        (.start (settings.withLimit none) input output) m')
      (hk : k ≤ n) (hout : e.machine.output = m'.output) (hin : e.machine.input = m'.input) :
      ∃ e', Ends (step (Program.withMarks code linear).code)
        (.start (settings.withLimit (some (2 * n : Nat))) input output) e' ∧
        GoesOn e.machine e'.machine := by
    obtain ⟨e', he', hgo⟩ := goesOn_of_unchecked h linear hw hk
    exact ⟨e', he', by rw [hin]; exact hgo.input, by rw [hout]; exact hgo.output⟩
  rw [Reference.step_eq_counted] at he
  rcases (Reference.regular_step _ pairs).ends_of_limited (limited_start input output hlimit) he with
    ⟨e₀, he₀, -, hl, ht⟩ | ⟨-, k, m', hw, ht, -, -, hout, hin⟩
  · have hsteps : e₀.machine.steps ≤ n := by
      unfold InTime at ht
      change _ ∨ e₀.machine.steps = 0 at ht
      omega
    rw [← Reference.step_eq_counted] at he₀
    rcases Reference.ends_unchecked_or_stranded rfl he₀ with he₁ | ⟨k, m', hw, hst⟩
    · obtain ⟨e₁, he₁, hcomp⟩ := compiled_of_unchecked h linear rfl he₁
      have hle := hcomp.steps
      obtain ⟨e', he', -, hl'⟩ := (regular_code _).ends_limited
        (limited_start input output hlimit') he₁ (.inl (by omega))
      refine ⟨e', he', ?_, ?_⟩
      · rw [← hl.input, hcomp.input, hl'.input]
      · rw [← hl.output, hcomp.output, hl'.output]
    · have hw' := hw
      rw [Reference.uncheckedStep_eq_counted] at hw'
      have hk := ((Reference.regular_uncheckedStep _ _).clock_of_walk rfl hw').1
      have := hst.steps
      exact hpast hw (by omega) (hl.output.symm.trans hst.output) (hl.input.symm.trans hst.input)
  · rw [← Reference.step_eq_counted] at hw
    refine hpast (Reference.walk_unchecked rfl hw).1 ?_ hout hin
    unfold InTime at ht
    omega

end

/-- A compiled program ends within twice the steps of the reference, and with twice the limit on its
steps it has written all that the reference has and consumed at least as much input. -/
theorem runSource_within_twice (text : String) (settings : Settings) (input : Input)
    (output : Output) (hb : Symbol.Balanced (Symbol.ofText text)) :
    (∀ e, EndsWith (runReference text (settings.withLimit none) input output) e →
      e.halt = .finished →
      ∃ e', EndsWith (runSource text (settings.withLimit none) input output) e' ∧
        e'.halt = .finished ∧ e'.machine.steps ≤ 2 * e.machine.steps) ∧
    ∀ n : Nat, ∃ e e',
      EndsWith (runReference text (settings.withLimit (some n)) input output) e ∧
      EndsWith (runSource text (settings.withLimit (some (2 * n : Nat))) input output) e' ∧
      e.machine.output.bytes.toList <+: e'.machine.output.bytes.toList ∧
      e'.machine.input.rest <:+ e.machine.input.rest := by
  refine ⟨fun e he hf => ?_, fun n => ?_⟩
  · rcases runUnchecked_or_right hb rfl he with h | ⟨-, j, hj⟩
    · obtain ⟨e', he', hcomp⟩ := runSource_of_runUnchecked hb rfl h
      exact ⟨e', he', hcomp.finished_iff.1 hf, hcomp.steps⟩
    · cases hf.symm.trans hj
  · obtain ⟨code, pairs, hpairs, hlinked, hcompile⟩ := Program.exists_compile hb
    have hends := (Reference.regular_step (Symbol.ofText text).toArray pairs).exists_ends
      (c := .start (settings.withLimit (some n)) input output) rfl
    rw [← Reference.step_eq_counted] at hends
    obtain ⟨e, he⟩ := hends
    obtain ⟨e', he', hgo⟩ := goesOn_of_limited hlinked settings.linear he
    refine ⟨_, _, (endsWith_reference hpairs).2 ⟨e, he, rfl⟩,
      (endsWith_source (hcompile _)).2 ⟨e', he', rfl⟩, ?_, ?_⟩
    · exact hgo.close.output
    · exact hgo.close.input

/-- Counting down from two takes the reference seven steps; a loop without an end is cut off. -/
theorem within_twice_in_countdown_and_endless_loop :
    (∃ e e', EndsWith (runReference "++[-]" (Settings.withLimit { memorySize := 1 } none)
        (.ofBytes []) .buffered) e ∧ e.machine.steps = 7 ∧
      EndsWith (runSource "++[-]" (Settings.withLimit { memorySize := 1 } none)
        (.ofBytes []) .buffered) e' ∧ e'.machine.steps ≤ 14) ∧
    ∃ e e',
      EndsWith (runReference "+[.+]" (Settings.withLimit { memorySize := 1 } (some (4 : Nat)))
        (.ofBytes []) .buffered) e ∧
      EndsWith (runSource "+[.+]" (Settings.withLimit { memorySize := 1 } (some (2 * 4 : Nat)))
        (.ofBytes []) .buffered) e' ∧
      e.machine.output.bytes.toList <+: e'.machine.output.bytes.toList := by
  constructor
  · have he : EndsWith (runReference "++[-]" (Settings.withLimit { memorySize := 1 } none)
        (.ofBytes []) .buffered)
        ⟨{ tape := ⟨#[0], 0⟩, input := .ofBytes [], output := .buffered, eofValue := -1,
           maxSteps := none, cursor := 5, steps := 7 }, .finished⟩ := ⟨by decide, 8, by decide⟩
    obtain ⟨e', he', -, hsteps⟩ :=
      (runSource_within_twice "++[-]" { memorySize := 1 } (.ofBytes []) .buffered
        (by decide)).1 _ he rfl
    exact ⟨_, e', he, rfl, he', hsteps⟩
  · obtain ⟨e, e', he, he', hwritten, -⟩ :=
      (runSource_within_twice "+[.+]" { memorySize := 1 } (.ofBytes []) .buffered (by decide)).2 4
    exact ⟨e, e', he, he', hwritten⟩

end TapeFold
