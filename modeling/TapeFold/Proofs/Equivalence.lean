import TapeFold.Proofs.Compiled

/-!
# Compiled programs and the reference

The reference with unchecked moves goes the way of the reference until a right move arrives left of
the first cell, where the reference is stranded (`Reference.ends_unchecked_or_stranded`). So a
compiled program comes to the result of the reference, and underflows only if that does
(`runSource_refines_runReference`); an underflow of the reference stays hidden just if it has stranded
on a right move and is not followed by one on a cell that is used
(`underflows_runSource_iff`).
-/

namespace TapeFold

open Machine

/-- The endings are the same but for zeros at the end of the tape of the first. -/
structure SameResult (e e' : Ending) : Prop where
  finished : e.halt = .finished
  finished' : e'.halt = .finished
  output : e.machine.output = e'.machine.output
  input : e.machine.input = e'.machine.input
  pointer : e.machine.tape.pointer = e'.machine.tape.pointer
  cells : ∃ k, e.machine.tape.cells = e'.machine.tape.cells ++ Array.replicate k 0

namespace Reference

variable {symbols : Array Symbol} {pairs : BracketPairs} {m m' : Machine} {e : Ending} {n : Nat}

theorem maxSteps_of_step (hl : m.maxSteps = none) (hs : step symbols pairs m = .ok true m') :
    m'.maxSteps = none := by
  rw [step_eq_counted] at hs
  exact ((regular_step symbols pairs).clock_of_ok hl hs).2

theorem walk_unchecked (hl : m.maxSteps = none) (hw : Walk (step symbols pairs) n m m') :
    Walk (uncheckedStep symbols pairs) n m m' ∧ m'.maxSteps = none := by
  induction hw with
  | refl => exact ⟨.refl, hl⟩
  | @cons n m m₁ m' hs _ ih =>
    obtain ⟨hw', hl'⟩ := ih (maxSteps_of_step hl hs)
    rcases step_eq_or_stranded symbols pairs m hl with heq | ⟨e, hst, -⟩
    · exact ⟨.cons (heq.symm.trans hs) hw', hl'⟩
    · exact absurd hs hst.not_step

/-- The reference ends as it does without checks, or it is stranded. -/
theorem ends_unchecked_or_stranded (hl : m.maxSteps = none) (he : Ends (step symbols pairs) m e) :
    Ends (uncheckedStep symbols pairs) m e ∨
      ∃ n m', Walk (uncheckedStep symbols pairs) n m m' ∧ Stranded symbols m' e := by
  obtain ⟨n, m', hw, hs⟩ := he
  obtain ⟨hw', hl'⟩ := walk_unchecked hl hw
  rcases step_eq_or_stranded symbols pairs m' hl' with heq | ⟨e', hs', he'⟩
  · left
    exact ⟨n, m', hw', hs.congr heq.symm⟩
  · right
    rw [hs.unique hs']
    exact ⟨n, m', hw', he'⟩

/-- If the reference ends without checks, it does so with them, or is stranded on the way. -/
theorem ends_or_stranded (hl : m.maxSteps = none) (he : Ends (uncheckedStep symbols pairs) m e) :
    ∃ e₀, Ends (step symbols pairs) m e₀ ∧ (e₀ = e ∨
      ∃ m', Stranded symbols m' e₀ ∧ GoesOn m' e.machine) := by
  obtain ⟨n, m', hw, hs⟩ := he
  induction hw with
  | @refl m =>
    rcases step_eq_or_stranded symbols pairs m hl with heq | ⟨e', hs', he'⟩
    · exact ⟨e, ⟨0, m, .refl, hs.congr heq⟩, .inl rfl⟩
    · rw [uncheckedStep_eq_counted] at hs
      exact ⟨e', ⟨0, m, .refl, hs'⟩,
        .inr ⟨m, he', (regular_uncheckedStep _ _).goesOn_of_stops hs⟩⟩
  | @cons n m m₁ m' hs₁ hw ih =>
    rcases step_eq_or_stranded symbols pairs m hl with heq | ⟨e', hs', he'⟩
    · have hs₂ := heq.trans hs₁
      obtain ⟨e₀, he₀, h⟩ := ih (maxSteps_of_step hl hs₂) hs
      exact ⟨e₀, he₀.cons hs₂, h⟩
    · have hw' := Walk.cons hs₁ hw
      rw [uncheckedStep_eq_counted] at hs hw'
      have hregular := regular_uncheckedStep symbols pairs
      exact ⟨e', ⟨0, m, .refl, hs'⟩,
        .inr ⟨m, he', (hregular.goesOn_of_walk hw').trans (hregular.goesOn_of_stops hs)⟩⟩

end Reference

/-! ### Comparable ends -/

namespace Comparable
variable {e e' : Ending}

theorem close (h : Comparable e e') : Comparable e.close e'.close := by
  have hh : e.halt ≠ .unfinished ∧ e'.halt ≠ .unfinished := by
    rcases h.halt with ⟨h, h', -⟩ | ⟨i, j, h, h'⟩ | ⟨h, h'⟩ <;> rw [h, h'] <;> exact ⟨nofun, nofun⟩
  refine ⟨?_, ?_, ?_, ?_⟩
  · rw [Ending.input_close, Ending.input_close, h.input]
  · rw [Ending.output_close hh.1, Ending.output_close hh.2, h.output]
  · rw [Ending.steps_close, Ending.steps_close]
    exact h.steps
  · rw [Ending.halt_close, Ending.halt_close, Ending.tape_close, Ending.tape_close]
    exact h.halt

theorem finished_iff (h : Comparable e e') : e.halt = .finished ↔ e'.halt = .finished := by
  rcases h.halt with ⟨h, h', -⟩ | ⟨i, j, h, h'⟩ | ⟨h, h'⟩ <;> simp [h, h']

theorem underflow_iff (h : Comparable e e') :
    (∃ i, e.halt = .faulted (.underflow i)) ↔ ∃ i, e'.halt = .faulted (.underflow i) := by
  rcases h.halt with ⟨h, h', -⟩ | ⟨i, j, h, h'⟩ | ⟨h, h'⟩ <;> simp [h, h']

theorem sameResult (h : Comparable e e') (hf : e.halt = .finished) : SameResult e e' := by
  obtain ⟨-, hf', hcovers⟩ : e.halt = .finished ∧ e'.halt = .finished ∧
      e.machine.tape.Covers e'.machine.tape := by
    rcases h.halt with h | ⟨i, j, h, -⟩ | ⟨h, -⟩
    · exact h
    · cases hf.symm.trans h
    · cases hf.symm.trans h
  exact ⟨hf, hf', h.output, h.input, hcovers.pointer, _,
    Tape.cells_eq_append_replicate hcovers.size fun k => (hcovers.cell k).symm⟩

end Comparable

/-! ### Runs of a text -/

section
variable {text : String} {settings : Settings} {input : Input} {output : Output} {e e' : Ending}
  (hb : Symbol.Balanced (Symbol.ofText text)) (hl : settings.maxSteps = none)
include hb hl

theorem runSource_of_runUnchecked (he : EndsWith (runUnchecked text settings input output) e) :
    ∃ e', EndsWith (runSource text settings input output) e' ∧ Comparable e e' := by
  obtain ⟨code, pairs, hpairs, hlinked, hcompile⟩ := Program.exists_compile hb
  obtain ⟨e₀, he₀, rfl⟩ := (endsWith_unchecked hpairs).1 he
  obtain ⟨e', he', h⟩ := compiled_of_unchecked hlinked settings.linear hl he₀
  exact ⟨_, (endsWith_source (hcompile _)).2 ⟨e', he', rfl⟩, h.close⟩

theorem runUnchecked_of_runSource (he : EndsWith (runSource text settings input output) e') :
    ∃ e, EndsWith (runUnchecked text settings input output) e ∧ Comparable e e' := by
  obtain ⟨code, pairs, hpairs, hlinked, hcompile⟩ := Program.exists_compile hb
  obtain ⟨e₀, he₀, rfl⟩ := (endsWith_source (hcompile _)).1 he
  obtain ⟨e, he, h⟩ := unchecked_of_compiled hlinked settings.linear hl he₀
  exact ⟨_, (endsWith_unchecked hpairs).2 ⟨e, he, rfl⟩, h.close⟩

theorem runUnchecked_or_right (he : EndsWith (runReference text settings input output) e) :
    EndsWith (runUnchecked text settings input output) e ∨
      (Symbol.ofText text)[e.machine.cursor.toNat]? = some (.act .right) ∧
        ∃ i, e.halt = .faulted (.underflow i) := by
  obtain ⟨pairs, hpairs⟩ := Symbol.balanced_iff.1 hb
  obtain ⟨e₀, he₀, rfl⟩ := (endsWith_reference hpairs).1 he
  rcases Reference.ends_unchecked_or_stranded hl he₀ with h | ⟨n, m', -, hst⟩
  · exact .inl ((endsWith_unchecked hpairs).2 ⟨e₀, h, rfl⟩)
  · right
    rw [Ending.cursor_close, Ending.halt_close, ← List.getElem?_toArray]
    exact ⟨hst.right, hst.halt⟩

theorem runReference_of_runUnchecked
    (he : EndsWith (runUnchecked text settings input output) e) :
    ∃ e₀, EndsWith (runReference text settings input output) e₀ ∧ (e₀ = e ∨
      (∃ i, e₀.halt = .faulted (.underflow i)) ∧
        e₀.machine.output.bytes.toList <+: e.machine.output.bytes.toList) := by
  obtain ⟨pairs, hpairs⟩ := Symbol.balanced_iff.1 hb
  obtain ⟨e₁, he₁, rfl⟩ := (endsWith_unchecked hpairs).1 he
  obtain ⟨e₀, he₀, h⟩ := Reference.ends_or_stranded hl he₁
  refine ⟨_, (endsWith_reference hpairs).2 ⟨e₀, he₀, rfl⟩, ?_⟩
  rcases h with rfl | ⟨m', hst, hgo⟩
  · exact .inl rfl
  · right
    rw [Ending.halt_close, Ending.bytes_close, Ending.bytes_close, hst.output]
    exact ⟨hst.halt, hgo.output⟩

theorem underflows_runSource {bytes : Array UInt8} :
    Underflows (runSource text settings input output) bytes ↔
      Underflows (runUnchecked text settings input output) bytes := by
  constructor
  · rintro ⟨e', i, he', hi, rfl⟩
    obtain ⟨e, he, hcomp⟩ := runUnchecked_of_runSource hb hl he'
    obtain ⟨j, hj⟩ := hcomp.underflow_iff.2 ⟨i, hi⟩
    exact ⟨e, j, he, hj, by rw [hcomp.output]⟩
  · rintro ⟨e, i, he, hi, rfl⟩
    obtain ⟨e', he', hcomp⟩ := runSource_of_runUnchecked hb hl he
    obtain ⟨j, hj⟩ := hcomp.underflow_iff.1 ⟨i, hi⟩
    exact ⟨e', j, he', hj, by rw [hcomp.output]⟩

theorem underflows_runUnchecked {i : Int}
    (he : EndsWith (runReference text settings input output) e)
    (hi : e.halt = .faulted (.underflow i))
    (hr : (Symbol.ofText text)[e.machine.cursor.toNat]? ≠ some (.act .right)) :
    Underflows (runUnchecked text settings input output) e.machine.output.bytes := by
  rcases runUnchecked_or_right hb hl he with h | ⟨hr', -⟩
  · exact ⟨e, i, h, hi, rfl⟩
  · exact absurd hr' hr

end

/-- Where the reference underflows, the program underflows with the same bytes written just if the
reference has stopped elsewhere than on a right move, or underflows with these bytes without checks
on its moves. -/
theorem underflows_runSource_iff (text : String) (settings : Settings) (input : Input)
    (output : Output) (hb : Symbol.Balanced (Symbol.ofText text)) (hl : settings.maxSteps = none)
    (e : Ending) (he : EndsWith (runReference text settings input output) e) (i : Int)
    (hi : e.halt = .faulted (.underflow i)) :
    Underflows (runSource text settings input output) e.machine.output.bytes ↔
      (Symbol.ofText text)[e.machine.cursor.toNat]? ≠ some (.act .right) ∨
        Underflows (runUnchecked text settings input output) e.machine.output.bytes := by
  rw [underflows_runSource hb hl]
  refine ⟨.inr, ?_⟩
  rintro (hr | h)
  · exact underflows_runUnchecked hb hl he hi hr
  · exact h

/-- An underflow on a change of a cell is met after the same byte. -/
theorem underflows_runSource_after_write :
    ∃ e, EndsWith (runReference ".<+" { memorySize := 1 } (.ofBytes []) .buffered) e ∧
      e.halt = .faulted (.underflow (-1)) ∧
      Underflows (runSource ".<+" { memorySize := 1 } (.ofBytes []) .buffered)
        e.machine.output.bytes := by
  have he : EndsWith (runReference ".<+" { memorySize := 1 } (.ofBytes []) .buffered)
      ⟨{ tape := ⟨#[0], -1⟩, input := .ofBytes [], output := ⟨#[0], none⟩, eofValue := -1,
         maxSteps := none, cursor := 2, steps := 3 }, .faulted (.underflow (-1))⟩ :=
    ⟨by decide, 4, by decide⟩
  exact ⟨_, he, rfl, (underflows_runSource_iff _ _ _ _ (by decide) rfl _ he _ rfl).2 (.inl (by decide))⟩

/-- A detour left of the first cell, which stops the reference, is folded to nothing. -/
theorem underflow_hidden_by_folding :
    (∃ e, EndsWith (runReference "<<>>" { memorySize := 1 } (.ofBytes []) .buffered) e ∧
      e.halt = .faulted (.underflow (-1))) ∧
    ∀ bytes, ¬ Underflows (runSource "<<>>" { memorySize := 1 } (.ofBytes []) .buffered) bytes := by
  have he : EndsWith (runReference "<<>>" { memorySize := 1 } (.ofBytes []) .buffered)
      ⟨{ tape := ⟨#[0], -1⟩, input := .ofBytes [], output := .buffered, eofValue := -1,
         maxSteps := none, cursor := 2, steps := 3 }, .faulted (.underflow (-1))⟩ :=
    ⟨by decide, 4, by decide⟩
  have he' : EndsWith (runSource "<<>>" { memorySize := 1 } (.ofBytes []) .buffered)
      ⟨.start { memorySize := 1 } (.ofBytes []) .buffered, .finished⟩ := ⟨by decide, 1, by decide⟩
  refine ⟨⟨_, he, rfl⟩, ?_⟩
  rintro bytes ⟨e, i, h, hi, -⟩
  rw [runSource_unique h he'] at hi
  cases hi

/-- A program refines the reference, but for the bytes that it may write before an underflow which
the reference has met on a right move. -/
theorem runSource_refines_runReference (text : String) (settings : Settings) (input : Input)
    (output : Output) (hb : Symbol.Balanced (Symbol.ofText text)) (hl : settings.maxSteps = none) :
    (∀ e, EndsWith (runReference text settings input output) e → e.halt = .finished →
      ∃ e', EndsWith (runSource text settings input output) e' ∧ SameResult e e') ∧
    (∀ e' i, EndsWith (runSource text settings input output) e' →
      e'.halt = .faulted (.underflow i) →
      ∃ e j, EndsWith (runReference text settings input output) e ∧
        e.halt = .faulted (.underflow j) ∧
        e.machine.output.bytes.toList <+: e'.machine.output.bytes.toList ∧
        (e.machine.output.bytes = e'.machine.output.bytes ↔
          (Symbol.ofText text)[e.machine.cursor.toNat]? ≠ some (.act .right) ∨
            Underflows (runUnchecked text settings input output) e.machine.output.bytes)) ∧
    (∀ e', EndsWith (runSource text settings input output) e' → e'.halt = .finished →
      ∃ e, EndsWith (runReference text settings input output) e ∧
        (SameResult e e' ∨ ∃ i, e.halt = .faulted (.underflow i))) := by
  refine ⟨fun e he hf => ?_, fun e' i he' hi => ?_, fun e' he' hf => ?_⟩
  · rcases runUnchecked_or_right hb hl he with h | ⟨-, j, hj⟩
    · obtain ⟨e', he', hcomp⟩ := runSource_of_runUnchecked hb hl h
      exact ⟨e', he', hcomp.sameResult hf⟩
    · cases hf.symm.trans hj
  · obtain ⟨e₁, he₁, hcomp⟩ := runUnchecked_of_runSource hb hl he'
    obtain ⟨j, hj⟩ := hcomp.underflow_iff.2 ⟨i, hi⟩
    obtain ⟨e, he, h⟩ := runReference_of_runUnchecked hb hl he₁
    have hwritten : (∃ j, e.halt = .faulted (.underflow j)) ∧
        e.machine.output.bytes.toList <+: e'.machine.output.bytes.toList := by
      rw [← hcomp.output]
      rcases h with rfl | h
      · exact ⟨⟨j, hj⟩, List.prefix_rfl⟩
      · exact h
    obtain ⟨⟨j', hj'⟩, hwritten⟩ := hwritten
    refine ⟨e, j', he, hj', hwritten, fun hbytes => ?_, ?_⟩
    · exact .inr ⟨e₁, j, he₁, hj, by rw [hcomp.output, hbytes]⟩
    · intro hcond
      have hsource : Underflows (runSource text settings input output) e.machine.output.bytes := by
        rw [underflows_runSource hb hl]
        exact hcond.elim (underflows_runUnchecked hb hl he hj') id
      obtain ⟨e₂, _, he₂, _, hbytes⟩ := hsource
      rw [← hbytes, runSource_unique he₂ he']
  · obtain ⟨e₁, he₁, hcomp⟩ := runUnchecked_of_runSource hb hl he'
    have hf₁ := hcomp.finished_iff.2 hf
    obtain ⟨e, he, rfl | ⟨hi, -⟩⟩ := runReference_of_runUnchecked hb hl he₁
    · exact ⟨e, he, .inl (hcomp.sameResult hf₁)⟩
    · exact ⟨e, he, .inr hi⟩

/-- The reference alone grows the tape on a detour; both underflow at a cell that is changed. -/
theorem refines_on_detour_and_underflow :
    (∃ e e' e₁, EndsWith (runReference "+><" { memorySize := 1 } (.ofBytes []) .buffered) e ∧
      EndsWith (runSource "+><" { memorySize := 1 } (.ofBytes []) .buffered) e' ∧
      SameResult e e' ∧
      EndsWith (runReference "+><" { memorySize := 1 } (.ofBytes []) .buffered) e₁ ∧
      (SameResult e₁ e' ∨ ∃ i, e₁.halt = .faulted (.underflow i))) ∧
    ∃ e e' i j, EndsWith (runSource ".<+" { memorySize := 1 } (.ofBytes []) .buffered) e' ∧
      e'.halt = .faulted (.underflow i) ∧
      EndsWith (runReference ".<+" { memorySize := 1 } (.ofBytes []) .buffered) e ∧
      e.halt = .faulted (.underflow j) ∧ e.machine.output.bytes = e'.machine.output.bytes := by
  constructor
  · have he : EndsWith (runReference "+><" { memorySize := 1 } (.ofBytes []) .buffered)
        ⟨{ tape := ⟨#[1, 0], 0⟩, input := .ofBytes [], output := .buffered, eofValue := -1,
           maxSteps := none, cursor := 3, steps := 3 }, .finished⟩ := ⟨by decide, 4, by decide⟩
    obtain ⟨ha, -, hc⟩ := runSource_refines_runReference "+><" { memorySize := 1 } (.ofBytes [])
      .buffered (by decide) rfl
    obtain ⟨e', he', hsame⟩ := ha _ he rfl
    obtain ⟨e₁, he₁, h⟩ := hc e' he' hsame.finished'
    exact ⟨_, e', e₁, he, he', hsame, he₁, h⟩
  · have he' : EndsWith (runSource ".<+" { memorySize := 1 } (.ofBytes []) .buffered)
        ⟨{ tape := ⟨#[0], 0⟩, input := .ofBytes [], output := ⟨#[0], none⟩, eofValue := -1,
           maxSteps := none, cursor := 1, steps := 2 }, .faulted (.underflow (-1))⟩ :=
      ⟨by decide, 3, by decide⟩
    have he₀ : EndsWith (runReference ".<+" { memorySize := 1 } (.ofBytes []) .buffered)
        ⟨{ tape := ⟨#[0], -1⟩, input := .ofBytes [], output := ⟨#[0], none⟩, eofValue := -1,
           maxSteps := none, cursor := 2, steps := 3 }, .faulted (.underflow (-1))⟩ :=
      ⟨by decide, 4, by decide⟩
    obtain ⟨-, hb, -⟩ := runSource_refines_runReference ".<+" { memorySize := 1 } (.ofBytes [])
      .buffered (by decide) rfl
    obtain ⟨e, j, he, hj, -, hbytes⟩ := hb _ _ he' rfl
    obtain rfl := runReference_unique he he₀
    exact ⟨_, _, _, j, he', rfl, he, hj, hbytes.2 (.inl (by decide))⟩

/-- After a hidden underflow a program writes a byte that the reference does not. -/
theorem writes_after_hidden_underflow :
    Underflows (runSource "<<>>.<+" { memorySize := 1 } (.ofBytes []) .buffered) #[0] ∧
      Underflows (runReference "<<>>.<+" { memorySize := 1 } (.ofBytes []) .buffered) #[] ∧
      ¬ Underflows (runReference "<<>>.<+" { memorySize := 1 } (.ofBytes []) .buffered) #[0] := by
  have he : EndsWith (runReference "<<>>.<+" { memorySize := 1 } (.ofBytes []) .buffered)
      ⟨{ tape := ⟨#[0], -1⟩, input := .ofBytes [], output := .buffered, eofValue := -1,
         maxSteps := none, cursor := 2, steps := 3 }, .faulted (.underflow (-1))⟩ :=
    ⟨by decide, 4, by decide⟩
  have he' : EndsWith (runSource "<<>>.<+" { memorySize := 1 } (.ofBytes []) .buffered)
      ⟨{ tape := ⟨#[0], 0⟩, input := .ofBytes [], output := ⟨#[0], none⟩, eofValue := -1,
         maxSteps := none, cursor := 1, steps := 2 }, .faulted (.underflow (-1))⟩ :=
    ⟨by decide, 3, by decide⟩
  refine ⟨⟨_, -1, he', rfl, rfl⟩, ⟨_, -1, he, rfl, rfl⟩, ?_⟩
  rintro ⟨e, i, h, -, hbytes⟩
  rw [runReference_unique h he] at hbytes
  exact absurd hbytes (by decide)

end TapeFold
