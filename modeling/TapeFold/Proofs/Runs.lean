import TapeFold.Interpreter
import TapeFold.Proofs.Clock

/-!
# Runs of a program text

A run without a limit needs patience. It ends with `e` if it does so with enough of it (`EndsWith`),
which is the case just if its steps end so and `e` is closed (`Regular.endsWith_iff`).
-/

namespace TapeFold

/-- The settings with another limit. -/
def Settings.withLimit (s : Settings) (limit : Option Int) : Settings :=
  { s with maxSteps := limit }

/-- With enough patience, the run comes to an end, which is `e`. -/
structure EndsWith (run : Nat → Except BracketError Ending) (e : Ending) : Prop where
  halted : e.halt ≠ .unfinished
  ends : ∃ patience, run patience = .ok e

/-- The run of `code` from `m` ends with `e`. -/
def Machine.RunEnds (code : Array Instruction) (m : Machine) (e : Ending) : Prop :=
  EndsWith (fun patience => .ok (Machine.run code patience m)) e

/-- The run addresses a cell left of the first one when it has written `bytes`. -/
def Underflows (run : Nat → Except BracketError Ending) (bytes : Array UInt8) : Prop :=
  ∃ e i, EndsWith run e ∧ e.halt = .faulted (.underflow i) ∧ e.machine.output.bytes = bytes

/-- Runs the program in `text` symbol by symbol without checking right moves. -/
def runUnchecked (text : String) (settings : Settings) (input : Input) (output : Output)
    (patience : Nat) : Except BracketError Ending :=
  Reference.runUnchecked text patience (Machine.start settings input output)

namespace Ending
variable {e : Ending}

@[simp] theorem halt_close (e : Ending) : e.close.halt = e.halt := by
  unfold close
  split <;> rfl

@[simp] theorem tape_close (e : Ending) : e.close.machine.tape = e.machine.tape := by
  unfold close
  split <;> rfl

@[simp] theorem input_close (e : Ending) : e.close.machine.input = e.machine.input := by
  unfold close
  split <;> rfl

@[simp] theorem steps_close (e : Ending) : e.close.machine.steps = e.machine.steps := by
  unfold close
  split <;> rfl

@[simp] theorem cursor_close (e : Ending) : e.close.machine.cursor = e.machine.cursor := by
  unfold close
  split <;> rfl

theorem close_of_unfinished (h : e.halt = .unfinished) : e.close = e := by
  unfold close
  rw [h]

theorem output_close (h : e.halt ≠ .unfinished) :
    e.close.machine.output = e.machine.output.flush := by
  unfold close
  split
  · contradiction
  · rfl

@[simp] theorem bytes_close (e : Ending) :
    e.close.machine.output.bytes = e.machine.output.bytes := by
  have hflush (o : Output) : o.flush.bytes = o.bytes := by
    obtain ⟨buffer, stream⟩ := o
    cases stream <;> rfl
  unfold close
  split
  · rfl
  · exact hflush _

end Ending

theorem Machine.GoesOn.close {e e' : Ending} (h : GoesOn e.machine e'.machine) :
    GoesOn e.close.machine e'.close.machine := by
  refine ⟨?_, ?_⟩
  · rw [Ending.input_close, Ending.input_close]
    exact h.input
  · rw [Ending.bytes_close, Ending.bytes_close]
    exact h.output

variable {ready : Execution Bool} {act : Execution Unit} {run : Nat → Except BracketError Ending}
  {m : Machine} {e e' : Ending} {text : String} {settings : Settings} {input : Input}
  {output : Output}

theorem Machine.Regular.endsWith_iff (h : Machine.Regular ready act)
    (hrun : ∀ n, run n =
      .ok (m.iterate (Machine.counted ready act) (m.stepBound?.getD n)).close) :
    EndsWith run e ↔ ∃ e₀, Machine.Ends (Machine.counted ready act) m e₀ ∧ e₀.close = e := by
  constructor
  · rintro ⟨hh, n, hn⟩
    rw [hrun] at hn
    injection hn with hn
    subst hn
    rw [Ending.halt_close] at hh
    obtain ⟨k, m', -, hw, hs⟩ := Machine.exists_walk_of_iterate rfl hh
    exact ⟨_, ⟨k, m', hw, hs⟩, rfl⟩
  · rintro ⟨e₀, he, rfl⟩
    obtain ⟨p, hp⟩ := h.iterate_eq_of_ends he
    refine ⟨by rw [Ending.halt_close]; exact he.halted, p, ?_⟩
    rw [hrun, hp p (Nat.le_refl p)]

theorem Machine.runEnds_iff {code : Array Instruction} :
    Machine.RunEnds code m e ↔ ∃ e₀, Machine.Ends (Machine.step code) m e₀ ∧ e₀.close = e :=
  (Machine.regular_code code).endsWith_iff fun _ => rfl

theorem endsWith_source {p : Program} (hp : Program.compile text settings.linear = .ok p) :
    EndsWith (runSource text settings input output) e ↔
      ∃ e₀, Machine.Ends (Machine.step p.code) (.start settings input output) e₀ ∧
        e₀.close = e := by
  refine (Machine.regular_code p.code).endsWith_iff fun n => ?_
  rw [runSource, hp]
  rfl

section
variable {pairs : BracketPairs} (hp : pairBrackets (Symbol.ofText text) = .ok pairs)
include hp

theorem endsWith_reference :
    EndsWith (runReference text settings input output) e ↔
      ∃ e₀, Machine.Ends (Reference.step (Symbol.ofText text).toArray pairs)
        (.start settings input output) e₀ ∧ e₀.close = e := by
  rw [Reference.step_eq_counted]
  refine (Reference.regular_step _ pairs).endsWith_iff fun n => ?_
  rw [← Reference.step_eq_counted, runReference, Reference.run, hp]
  rfl

theorem endsWith_unchecked :
    EndsWith (runUnchecked text settings input output) e ↔
      ∃ e₀, Machine.Ends (Reference.uncheckedStep (Symbol.ofText text).toArray pairs)
        (.start settings input output) e₀ ∧ e₀.close = e := by
  rw [Reference.uncheckedStep_eq_counted]
  refine (Reference.regular_uncheckedStep _ pairs).endsWith_iff fun n => ?_
  rw [← Reference.uncheckedStep_eq_counted, runUnchecked, Reference.runUnchecked, hp]
  rfl

end

/-- The start of a run under a limit is that of the same run without one. -/
theorem Machine.limited_start {limit : Int} (input : Input) (output : Output)
    (hl : settings.maxSteps = some limit) :
    Machine.Limited limit (.start (settings.withLimit none) input output)
      (.start settings input output) :=
  ⟨⟨⟨rfl, rfl, rfl, rfl, rfl, rfl⟩, rfl, rfl, rfl⟩, rfl, hl, rfl⟩

/-- A run that never ends without a limit exceeds any limit. -/
theorem runSource_exceeds_limit {p : Program} {limit : Int}
    (hp : Program.compile text settings.linear = .ok p) (hl : settings.maxSteps = some limit)
    (hnever : ∀ e, ¬ EndsWith (runSource text (settings.withLimit none) input output) e)
    (patience : Nat) : ∃ e, runSource text settings input output patience = .ok e ∧
      e.halt = .faulted (.stepLimit limit) ∧ limit < e.machine.steps := by
  have hregular := Machine.regular_code p.code
  have hunlimited : Program.compile text (settings.withLimit none).linear = .ok p := hp
  have hends := hregular.ends_bounded (c := .start settings input output) hl patience
  obtain ⟨hh, hsteps⟩ := hregular.exceeds_limit (Machine.limited_start input output hl)
    (fun e he => hnever _ ((endsWith_source hunlimited).2 ⟨e, he, rfl⟩)) hends
  refine ⟨_, ?_, (Ending.halt_close _).trans hh, ?_⟩
  · rw [runSource, hp]
    rfl
  · rwa [Ending.steps_close]

theorem runReference_unique (h : EndsWith (runReference text settings input output) e)
    (h' : EndsWith (runReference text settings input output) e') : e = e' := by
  match hp : pairBrackets (Symbol.ofText text) with
  | .error b =>
    obtain ⟨n, hn⟩ := h.ends
    rw [runReference, Reference.run, hp] at hn
    cases hn
  | .ok pairs =>
    obtain ⟨e₀, he, rfl⟩ := (endsWith_reference hp).1 h
    obtain ⟨e₁, he', rfl⟩ := (endsWith_reference hp).1 h'
    rw [he.unique he']

theorem runSource_unique (h : EndsWith (runSource text settings input output) e)
    (h' : EndsWith (runSource text settings input output) e') : e = e' := by
  match hp : Program.compile text settings.linear with
  | .error b =>
    obtain ⟨n, hn⟩ := h.ends
    rw [runSource, hp] at hn
    cases hn
  | .ok p =>
    obtain ⟨e₀, he, rfl⟩ := (endsWith_source hp).1 h
    obtain ⟨e₁, he', rfl⟩ := (endsWith_source hp).1 h'
    rw [he.unique he']

end TapeFold
