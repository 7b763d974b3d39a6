import TapeFold.Proofs.Runs
import TapeFold.Proofs.Shortcut

/-!
# Marks are unobservable

A run of a compiled program ends as it does without the marks, with the same tape, input and output
and in no more steps (`Program.marks_unobservable`). That goes for runs under a limit as long as the
run without the marks does not exceed it.
-/

namespace TapeFold

namespace Machine

variable {code : Array Instruction} {settings : Settings} {input : Input} {output : Output}
  {e e' : Ending} {limit : Int}

theorem SameEnd.close (h : SameEnd e e') (hh : e.halt ≠ .unfinished) :
    SameEnd e.close e'.close := by
  refine ⟨?_, ?_, ?_, ?_, ?_⟩
  · rw [Ending.halt_close, Ending.halt_close, h.halt]
  · rw [Ending.tape_close, Ending.tape_close, h.tape]
  · rw [Ending.input_close, Ending.input_close, h.input]
  · rw [Ending.output_close hh, Ending.output_close (h.halt ▸ hh), h.output]
  · rw [Ending.steps_close, Ending.steps_close]
    exact h.steps

theorem synced_start (code : Array Instruction) (scans : Bool) (hl : settings.maxSteps = none) :
    Synced code scans (.start settings input output) (.start settings input output) :=
  .same ⟨rfl, rfl, rfl, rfl, hl, hl, Nat.le_refl _⟩ rfl rfl ⟨⟨0, rfl⟩, nofun⟩

theorem SameEnd.of_limited {e₀ e₀' : Ending} (h : SameEnd e₀ e₀')
    (hh : e₀.halt = e.halt) (hl : Limited limit e₀.machine e.machine) (hh' : e'.halt = e₀'.halt)
    (hl' : Limited limit e₀'.machine e'.machine) : SameEnd e e' := by
  refine ⟨?_, ?_, ?_, ?_, ?_⟩
  · rw [← hh, h.halt, hh']
  · rw [← hl.tape, h.tape, hl'.tape]
  · rw [← hl.input, h.input, hl'.input]
  · rw [← hl.output, h.output, hl'.output]
  · rw [hl.steps, hl'.steps]
    exact h.steps

variable (hcode : Marked code) (scans : Bool)
include hcode

theorem ends_of_shed (hl : settings.maxSteps = none)
    (he : Ends (step (shedCode code scans)) (.start settings input output) e) :
    ∃ e', Ends (step code) (.start settings input output) e' ∧ SameEnd e e' := by
  obtain ⟨n, m', hw, hs⟩ := he
  obtain ⟨k, c', e', hw', hs', hS⟩ :=
    (simulates_shed hcode scans).stops (synced_start code scans hl) hw hs
  exact ⟨e', ⟨k, c', hw', hs'⟩, hS⟩

theorem shed_of_ends (hl : settings.maxSteps = none)
    (he : Ends (step code) (.start settings input output) e') :
    ∃ e, Ends (step (shedCode code scans)) (.start settings input output) e ∧ SameEnd e e' := by
  obtain ⟨n, m', hw, hs⟩ := he
  obtain ⟨k, c', e, hw', hs', hS⟩ :=
    (simulates_shed hcode scans).stops_of_stops (synced_start code scans hl) hw hs
  exact ⟨e, ⟨k, c', hw', hs'⟩, hS⟩

/-- A limit that is enough without the marks is enough with them. -/
theorem ends_of_shed_limited (hl : settings.maxSteps = some limit)
    (he : Ends (step (shedCode code scans)) (.start settings input output) e)
    (hh : e.halt ≠ .faulted (.stepLimit limit)) :
    ∃ e', Ends (step code) (.start settings input output) e' ∧ SameEnd e e' := by
  have hmc := limited_start input output hl
  rcases (regular_code _).ends_of_limited hmc he with ⟨e₀, he₀, hh₀, hl₀, ht⟩ | ⟨hstep, -⟩
  · obtain ⟨e₁, he₁, hS⟩ := ends_of_shed hcode scans rfl he₀
    have ht' : InTime limit (.start (settings.withLimit none) input output)
        e₁.machine.steps := by
      have hle := hS.steps
      have hstart : (Machine.start (settings.withLimit none) input output).steps = 0 := rfl
      unfold InTime at ht ⊢
      omega
    obtain ⟨e', he', hh', hl'⟩ := (regular_code code).ends_limited hmc he₁ ht'
    exact ⟨e', he', hS.of_limited hh₀ hl₀ hh' hl'⟩
  · exact absurd hstep hh

end Machine

/-- The marks of a compiled program are unobservable, all of them and the factors alone; without its
factors a program is what compilation makes of the text if it marks no linear loops. -/
theorem Program.marks_unobservable (text : String) (hb : Symbol.Balanced (Symbol.ofText text)) :
    ∃ p, compile text true = .ok p ∧
      compile text false = .ok { code := p.code.map (·.withFactor none) } ∧
      ∀ bare, bare = p.code.map Instruction.unmarked ∨ bare = p.code.map (·.withFactor none) →
        ∀ settings input output,
          (∀ e, Machine.RunEnds bare (.start settings input output) e →
            (∀ limit, e.halt ≠ .faulted (.stepLimit limit)) →
            ∃ e', Machine.RunEnds p.code (.start settings input output) e' ∧
              Machine.SameEnd e e') ∧
          (settings.maxSteps = none →
            ∀ e', Machine.RunEnds p.code (.start settings input output) e' →
              ∃ e, Machine.RunEnds bare (.start settings input output) e ∧
                Machine.SameEnd e e') := by
  obtain ⟨code, pairs, -, hlinked, hcompile⟩ := exists_compile hb
  have hmarked := marked_withMarks hlinked true
  refine ⟨withMarks code true, hcompile true, ?_, fun bare hbare settings input output => ?_⟩
  · rw [hcompile false, map_withFactor_withMarks hlinked]
    rfl
  obtain ⟨scans, rfl⟩ : ∃ scans, bare = shedCode (withMarks code true).code scans := by
    rcases hbare with rfl | rfl
    · exact ⟨true, rfl⟩
    · exact ⟨false, rfl⟩
  refine ⟨fun e he hh => ?_, fun hl e' he' => ?_⟩
  · obtain ⟨e₀, he₀, rfl⟩ := Machine.runEnds_iff.1 he
    have hsame : ∃ e', Machine.Ends (Machine.step (withMarks code true).code)
        (.start settings input output) e' ∧ Machine.SameEnd e₀ e' := by
      match hl : settings.maxSteps with
      | none => exact Machine.ends_of_shed hmarked scans hl he₀
      | some limit =>
        exact Machine.ends_of_shed_limited hmarked scans hl he₀ (by simpa using hh limit)
    obtain ⟨e', he', hS⟩ := hsame
    exact ⟨_, Machine.runEnds_iff.2 ⟨e', he', rfl⟩, hS.close he₀.halted⟩
  · obtain ⟨e₀, he₀, rfl⟩ := Machine.runEnds_iff.1 he'
    obtain ⟨e, he, hS⟩ := Machine.shed_of_ends hmarked scans hl he₀
    exact ⟨_, Machine.runEnds_iff.2 ⟨e, he, rfl⟩, hS.close he.halted⟩

/-- The transfer of a cell to the next one ends alike with its factor and without. -/
theorem Program.marks_unobservable_in_transfer :
    ∃ p e e' e₂, compile "+[->+<]" true = .ok p ∧
      Machine.RunEnds (p.code.map Instruction.unmarked)
        (.start { memorySize := 1 } (.ofBytes []) .buffered) e ∧
      Machine.RunEnds p.code (.start { memorySize := 1 } (.ofBytes []) .buffered) e' ∧
      Machine.SameEnd e e' ∧
      Machine.RunEnds (p.code.map (·.withFactor none))
        (.start { memorySize := 1 } (.ofBytes []) .buffered) e₂ ∧
      Machine.SameEnd e₂ e' := by
  obtain ⟨p, hp, -, h⟩ := marks_unobservable "+[->+<]" (by decide)
  let e : Ending :=
    ⟨{ tape := ⟨#[0, 1], 0⟩, input := .ofBytes [], output := .buffered, eofValue := -1,
       maxSteps := none, cursor := 4, steps := 4 }, .finished⟩
  have hrun : (compile "+[->+<]" true).map (fun p =>
      Machine.run (p.code.map Instruction.unmarked) 10
        (.start { memorySize := 1 } (.ofBytes []) .buffered)) = .ok e := by decide +kernel
  rw [hp] at hrun
  have he : Machine.RunEnds (p.code.map Instruction.unmarked)
    (.start { memorySize := 1 } (.ofBytes []) .buffered) e := ⟨by decide, 10, hrun⟩
  obtain ⟨e', he', hsame⟩ := (h _ (.inl rfl) _ _ _).1 e he fun _ => nofun
  obtain ⟨e₂, he₂, hsame₂⟩ := (h _ (.inr rfl) _ _ _).2 rfl e' he'
  exact ⟨p, e, e', e₂, hp, he, he', hsame, he₂, hsame₂⟩

end TapeFold
