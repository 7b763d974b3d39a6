import TapeFold.Proofs.Marking
import TapeFold.Proofs.Runs

/-!
# The limit only cuts runs off

Nothing but the clock faults with a limit (`Timeless`). So a run under a limit is the run under any
larger one, or is cut off on the step that exceeds the limit, with no more done than the other does
(`Regular.cutOff`). Each step is counted, so there is no way for code to pass the limit, whatever its
instructions are (`limit_only_truncates`).
-/

namespace TapeFold

namespace Machine

/-- What the action faults with, if it does, is no limit on the steps. -/
def Timeless {α : Type} (x : Execution α) : Prop := ∀ m limit m', x m ≠ .error (.stepLimit limit) m'

/-- The run ends with `e` under the limit `n`: where the run under `limit` ends, or on the first step
that exceeds `n`. -/
structure CutOff (n : Nat) (limit : Option Int) (ends : Ending → Prop) (e : Ending) : Prop where
  halted : e.halt ≠ .unfinished
  same : (∀ k, e.halt ≠ .faulted (.stepLimit k)) →
    ends { e with machine := { e.machine with maxSteps := limit } }
  exceeded : ∀ k, e.halt = .faulted (.stepLimit k) →
    k = n ∧ e.machine.steps = n + 1 ∧ ∀ e', ends e' → GoesOn e.machine e'.machine

variable {α β : Type} {ready : Execution Bool} {act' : Execution Unit} {m m' c : Machine}
  {e : Ending} {n k : Nat}

/-! ### Faults of actions -/

theorem timeless_of_ok {x : Execution α} (h : ∀ m, ∃ a m', x m = .ok a m') : Timeless x := by
  intro m limit m' he
  obtain ⟨a, m₁, hok⟩ := h m
  cases hok.symm.trans he

theorem Timeless.bind {x : Execution α} {f : α → Execution β} (hx : Timeless x)
    (hf : ∀ a, Timeless (f a)) : Timeless (x >>= f) := by
  intro m limit m' he
  match h : x m with
  | .ok a m₁ =>
    rw [bind_of_ok h] at he
    exact hf a m₁ limit m' he
  | .error f' m₁ =>
    rw [bind_of_error h] at he
    cases he
    exact hx m limit m' h

theorem timeless_get : Timeless (get : Execution Machine) := timeless_of_ok fun m => ⟨m, m, rfl⟩

theorem timeless_pure (a : α) : Timeless (pure a : Execution α) :=
  timeless_of_ok fun m => ⟨a, m, rfl⟩

theorem timeless_modify (f : Machine → Machine) : Timeless (modify f : Execution Unit) :=
  timeless_of_ok fun m => ⟨(), f m, rfl⟩

theorem timeless_throw {f : Fault} (h : ∀ limit, f ≠ .stepLimit limit) :
    Timeless (throw f : Execution α) := by
  intro m limit m' he
  cases he
  exact h limit rfl

theorem timeless_onTape (action : TapeAction α) : Timeless (onTape action) := by
  intro m limit m' he
  match h : action m.tape with
  | .ok a t => cases (onTape_of_ok h).symm.trans he
  | .error (.leftOfFirst i) t => cases (onTape_of_error h).symm.trans he

theorem timeless_jump (target : Option Int) : Timeless (jump target) := by
  cases target with
  | none => exact timeless_throw nofun
  | some t => exact timeless_modify _

theorem timeless_readCell : Timeless readCell := by
  refine Timeless.bind ?_ fun v => timeless_onTape _
  intro m limit m' he
  unfold read at he
  split at he <;> cases he

theorem timeless_writeCell : Timeless writeCell :=
  (timeless_onTape _).bind fun _ => timeless_modify _

section
variable (code : Array Instruction)

theorem timeless_settle : Timeless (settle code) := by
  have hend : Timeless (do return (← get).cursor < code.size : Execution Bool) :=
    timeless_get.bind fun _ => timeless_pure _
  have hleave (exit : Option Int) : Timeless (leave code exit) := by
    refine (timeless_onTape _).bind fun v => ?_
    split
    · exact (timeless_jump exit).bind fun _ => hend
    · exact hend
  intro m
  match h : m.focus.exit? with
  | none =>
    intro limit m' he
    cases (settle_of_dispatch (Focus.eq_dispatch h)).symm.trans he
  | some exit =>
    rw [settle_of_loop h]
    exact hleave exit m

theorem timeless_openLoop (loop : Instruction) : Timeless (openLoop code loop) := by
  refine (timeless_onTape _).bind fun v => ?_
  split
  · exact timeless_jump _
  · split
    · refine timeless_get.bind fun m => ?_
      split
      · unfold openLinear
        split
        · exact (timeless_onTape _).bind fun _ =>
            (timeless_modify _).bind fun _ => timeless_jump _
        · exact timeless_modify _
      · exact timeless_throw nofun
    · exact timeless_modify _
    · exact timeless_modify _

theorem timeless_execute (i : Instruction) : Timeless (execute code i) := by
  unfold execute
  split
  · exact (timeless_onTape _).bind fun _ => (timeless_onTape _).bind fun _ => timeless_modify _
  · exact timeless_openLoop code i
  · refine (timeless_onTape _).bind fun v => ?_
    split
    · exact timeless_jump _
    · exact timeless_modify _
  · exact timeless_readCell.bind fun _ => timeless_modify _
  · exact timeless_writeCell.bind fun _ => timeless_modify _

theorem timeless_act : Timeless (act code) := by
  refine timeless_get.bind fun m => ?_
  split
  · refine timeless_get.bind fun m => ?_
    split
    · exact timeless_execute code _
    · exact timeless_throw nofun
  · exact (timeless_onTape _).bind fun _ => timeless_modify _
  · exact (timeless_onTape _).bind fun _ => timeless_modify _

end

section
variable (symbols : Array Symbol) (pairs : BracketPairs)

theorem timeless_perform (position : Nat) (s : Symbol) :
    Timeless (Reference.perform pairs position s) := by
  cases s with
  | act a =>
    cases a with
    | inc => exact timeless_onTape (Tape.add 0 1)
    | dec => exact timeless_onTape (Tape.add 0 (-1))
    | left => exact timeless_onTape (Tape.shift (-1))
    | right => exact timeless_onTape (Tape.shift 1)
  | read => exact timeless_readCell
  | write => exact timeless_writeCell
  | loopOpen =>
    refine (timeless_onTape _).bind fun v => ?_
    split
    · exact timeless_modify _
    · exact timeless_pure _
  | loopClose =>
    refine (timeless_onTape _).bind fun v => ?_
    split
    · exact timeless_modify _
    · exact timeless_pure _

theorem timeless_ready : Timeless (Reference.ready symbols) := timeless_of_ok fun m => ⟨_, m, rfl⟩

theorem timeless_next : Timeless (Reference.next (Reference.perform pairs) symbols) := by
  intro m limit m' he
  unfold Reference.next at he
  split at he
  · cases he
  · exact ((timeless_perform pairs _ _).bind fun _ => timeless_modify _) m limit m' he

end

/-! ### Runs under two limits -/

theorem withLimit_eq {limit : Option Int} (h : m.maxSteps = limit) :
    { m with maxSteps := limit } = m := by
  subst h
  rfl

theorem limited_of_unlimited (limit : Int) (h : m.maxSteps = none) :
    Limited limit m { m with maxSteps := some limit } :=
  ⟨⟨⟨rfl, rfl, rfl, rfl, rfl, rfl⟩, rfl, rfl, rfl⟩, h, rfl, rfl⟩

namespace Regular
variable (h : Regular ready act')
include h

/-- A step under a limit is counted. -/
theorem steps_of_ok (hs : counted ready act' m = .ok true m') : m'.steps = m.steps + 1 := by
  obtain ⟨m₁, hr, -, ha⟩ := exists_of_counted_ok hs
  have hstill := h.still m
  have hlater := h.later m₁.ticked
  rw [hr] at hstill
  rw [ha] at hlater
  exact hlater.steps.trans (congrArg (· + 1) hstill.steps)

theorem halt_ne_stepLimit (hr : Timeless ready) (ha : Timeless act') (hm : m.maxSteps = none)
    (he : Ends (counted ready act') m e) (limit : Int) : e.halt ≠ .faulted (.stepLimit limit) := by
  obtain ⟨n, m', hw, hs⟩ := he
  have hl := (h.clock_of_walk hm hw).2
  rintro hf
  cases hs with
  | finished => cases hf
  | @faulted f m'' hstep =>
    obtain rfl : f = .stepLimit limit := Halt.faulted.inj hf
    rcases exists_of_counted_error hstep with hready | ⟨m₁, hready, ⟨k, hk, -⟩ | hact⟩
    · exact hr m' limit m'' hready
    · have hstill := h.still m'
      rw [hready] at hstill
      cases hk.symm.trans (hstill.maxSteps.trans hl)
    · exact ha m₁.ticked limit m'' hact

/-- Where a run stops without a limit, it stops under one that it does not exceed. -/
theorem ends_under (hm : m.maxSteps = none) (he : Ends (counted ready act') m e)
    (limit : Option Int) (ht : ∀ k, limit = some k → InTime k m e.machine.steps) :
    Ends (counted ready act') { m with maxSteps := limit }
      { e with machine := { e.machine with maxSteps := limit } } := by
  have hends (k : Int) (ht : InTime k m e.machine.steps) : e.machine.maxSteps = none ∧
      Ends (counted ready act') { m with maxSteps := some k }
        { e with machine := { e.machine with maxSteps := some k } } := by
    obtain ⟨⟨c, halt⟩, he', rfl, hl⟩ := h.ends_limited (limited_of_unlimited k hm) he ht
    obtain rfl : c = _ := hl.eq
    exact ⟨hl.unlimited, he'⟩
  cases limit with
  | none =>
    have hl := (hends e.machine.steps (.inl (Int.le_refl _))).1
    rw [withLimit_eq hm, withLimit_eq hl]
    exact he
  | some k => exact (hends k (ht k rfl)).2

/-- Under a larger limit a run goes at least as far as it has come to. -/
theorem goesOn_under (hm : m.maxSteps = none) (hw : Walk (counted ready act') k m m')
    (limit : Option Int) (ht : ∀ l, limit = some l → InTime l m (m.steps + k))
    (he : Ends (counted ready act') { m with maxSteps := limit } e) : GoesOn m' e.machine := by
  cases limit with
  | none =>
    rw [withLimit_eq hm] at he
    exact h.goesOn_of_ends hw he
  | some l =>
    obtain ⟨c', hw', hl⟩ := h.walk_limited (limited_of_unlimited l hm) hw (ht l rfl)
    have hgo := h.goesOn_of_ends hw' he
    exact ⟨hl.input ▸ hgo.input, hl.output ▸ hgo.output⟩

/-- A run under a limit is the run under any larger limit, or is cut off. -/
theorem cutOff (hr : Timeless ready) (ha : Timeless act') (hm : m.maxSteps = none)
    (hs : m.steps = 0) {limit : Option Int} (hl : ∀ k, limit = some k → n ≤ k)
    (he : Ends (counted ready act') { m with maxSteps := some (n : Int) } e) :
    CutOff n limit (Ends (counted ready act') { m with maxSteps := limit }) e := by
  have hmore {steps : Nat} (ht : InTime n m steps) (l : Int) (hle : limit = some l) :
      InTime l m steps := by
    have := hl l hle
    unfold InTime at ht ⊢
    omega
  refine ⟨he.halted, ?_, ?_⟩
  · intro hh
    rcases h.ends_of_limited (limited_of_unlimited n hm) he with ⟨e₀, he₀, hhalt, hl₀, ht⟩ | ⟨hf, -⟩
    · have heq : e = ⟨{ e₀.machine with maxSteps := some (n : Int) }, e₀.halt⟩ := by
        rw [← hl₀.eq, hhalt]
      rw [heq]
      exact h.ends_under hm he₀ limit (hmore ht)
    · exact absurd hf (hh n)
  · intro k hk
    rcases h.ends_of_limited (limited_of_unlimited n hm) he with ⟨e₀, he₀, hhalt, -⟩ |
      ⟨hf, j, m', hw, ht, hlt, hsteps, hout, hin⟩
    · exact absurd (hhalt.trans hk) (h.halt_ne_stepLimit hr ha hm he₀ k)
    · obtain rfl : (n : Int) = k := by
        rw [hk] at hf
        injection hf with hf
        injection hf with hf
        exact hf.symm
      have hj : j = n := by
        unfold InTime at ht
        omega
      refine ⟨rfl, by omega, ?_⟩
      intro e' he'
      have hgo := h.goesOn_under hm hw limit (hmore ht) he'
      exact ⟨hin ▸ hgo.input, hout ▸ hgo.output⟩

theorem steps_le_of_ends (hm : m.maxSteps = none) (hs : m.steps = 0)
    (he : Ends (counted ready act') { m with maxSteps := some (n : Int) } e) :
    e.machine.steps ≤ n + 1 := by
  rcases h.ends_of_limited (limited_of_unlimited n hm) he with ⟨e₀, -, -, hl, ht⟩ |
    ⟨-, j, m', -, ht, -, hsteps, -⟩
  · have hsame := hl.steps
    unfold InTime at ht
    omega
  · unfold InTime at ht
    omega

end Regular

theorem CutOff.close {limit : Option Int} {ends ends' : Ending → Prop}
    (hiff : ∀ {e}, ends' e ↔ ∃ e₀, ends e₀ ∧ e₀.close = e) (h : CutOff n limit ends e) :
    CutOff n limit ends' e.close := by
  refine ⟨?_, ?_, ?_⟩
  · rw [Ending.halt_close]
    exact h.halted
  · intro hh
    rw [Ending.halt_close] at hh
    refine hiff.2 ⟨_, h.same hh, ?_⟩
    obtain ⟨m, halt⟩ := e
    cases halt <;> rfl
  · intro k hk
    rw [Ending.halt_close] at hk
    obtain ⟨hn, hsteps, hgo⟩ := h.exceeded k hk
    refine ⟨hn, ?_, ?_⟩
    · rw [Ending.steps_close]
      exact hsteps
    · intro e' he'
      obtain ⟨e₀, he₀, rfl⟩ := hiff.1 he'
      exact (hgo e₀ he₀).close

end Machine

open Machine

/-- A run under a limit, of any code and of the reference, is the run under any larger limit unless it
exceeds its own. Then it is cut off on the step after its last, when it has written and read no more
than the other. A step of any code counts one, so a run of it ends with the first step that exceeds its
limit at the latest. -/
theorem limit_only_truncates (settings : Settings) (input : Input) (output : Output) (n : Nat)
    (limit : Option Int) (hl : ∀ k, limit = some k → n ≤ k) :
    (∀ code patience, CutOff n limit
      (RunEnds code (.start (settings.withLimit limit) input output))
      (run code patience (.start (settings.withLimit (some n)) input output))) ∧
    (∀ text, Symbol.Balanced (Symbol.ofText text) → ∀ patience, ∃ e,
      runReference text (settings.withLimit (some n)) input output patience = .ok e ∧
      CutOff n limit (EndsWith (runReference text (settings.withLimit limit) input output)) e) ∧
    ∀ code,
      (∀ m m', step code m = .ok true m' → m'.steps = m.steps + 1) ∧
      ∀ patience, (run code patience (.start (settings.withLimit (some n)) input
        output)).machine.steps ≤ n + 1 := by
  have hstart : (Machine.start (settings.withLimit (some n)) input output).maxSteps =
    some (n : Int) := rfl
  refine ⟨?_, ?_, ?_⟩
  · intro code patience
    have hregular := regular_code code
    have hcut := hregular.cutOff (timeless_settle code) (timeless_act code)
      (m := .start (settings.withLimit none) input output) rfl rfl hl
      (hregular.ends_bounded hstart patience)
    exact hcut.close runEnds_iff
  · intro text hb patience
    obtain ⟨pairs, hpairs⟩ := Symbol.balanced_iff.1 hb
    have hregular := Reference.regular_step (Symbol.ofText text).toArray pairs
    have hcut := hregular.cutOff (timeless_ready _) (timeless_next _ pairs)
      (m := .start (settings.withLimit none) input output) rfl rfl hl
      (hregular.ends_bounded hstart patience)
    rw [← Reference.step_eq_counted] at hcut
    refine ⟨_, ?_, hcut.close (endsWith_reference hpairs)⟩
    rw [runReference, Reference.run, hpairs]
    rfl
  · intro code
    refine ⟨fun m m' hs => (regular_code code).steps_of_ok hs, fun patience => ?_⟩
    rw [run, Ending.steps_close]
    exact (regular_code code).steps_le_of_ends (m := .start (settings.withLimit none) input output)
      rfl rfl ((regular_code code).ends_bounded hstart patience)

/-- An endless loop is cut off at its fourth step, and has written no more than it has at the seventh; a
countdown ends without a limit as it does within nine steps. -/
theorem truncates_endless_loop_but_not_countdown :
    (∃ e, runReference "+[.+]" (Settings.withLimit { memorySize := 1 } (some (3 : Nat)))
        (.ofBytes []) .buffered 0 = .ok e ∧ e.halt = .faulted (.stepLimit 3) ∧
      e.machine.steps = 4 ∧
      ∀ e', EndsWith (runReference "+[.+]" (Settings.withLimit { memorySize := 1 } (some 6))
        (.ofBytes []) .buffered) e' → GoesOn e.machine e'.machine) ∧
    ∃ p e, Program.compile "++[-]" false = .ok p ∧ e.halt = .finished ∧ e.machine.steps = 7 ∧
      RunEnds p.code (.start (Settings.withLimit { memorySize := 1 } none) (.ofBytes []) .buffered)
        e := by
  constructor
  · obtain ⟨-, hreference, -⟩ :=
      limit_only_truncates { memorySize := 1 } (.ofBytes []) .buffered 3 (some 6) (by
        rintro k ⟨⟩
        decide)
    obtain ⟨e, he, hcut⟩ := hreference "+[.+]" (by decide) 0
    have hrun : (runReference "+[.+]" (Settings.withLimit { memorySize := 1 } (some (3 : Nat)))
        (.ofBytes []) .buffered 0).map (·.halt) = .ok (.faulted (.stepLimit 3)) := by
      decide +kernel
    rw [he] at hrun
    have hhalt : e.halt = .faulted (.stepLimit 3) := Except.ok.inj hrun
    obtain ⟨-, hsteps, hgo⟩ := hcut.exceeded 3 hhalt
    exact ⟨e, he, hhalt, hsteps, hgo⟩
  · obtain ⟨hcompiled, -, -⟩ :=
      limit_only_truncates { memorySize := 1 } (.ofBytes []) .buffered 9 none nofun
    obtain ⟨p, hp⟩ := (Program.exists_compile_iff "++[-]" false).2 (by decide)
    have hrun : (Program.compile "++[-]" false).map (fun p =>
        let e := run p.code 0 (.start (Settings.withLimit { memorySize := 1 } (some (9 : Nat)))
          (.ofBytes []) .buffered)
        (e.halt, e.machine.steps)) = .ok (.finished, 7) := by decide +kernel
    rw [hp] at hrun
    obtain ⟨hhalt, hsteps⟩ := Prod.mk.inj (Except.ok.inj hrun)
    have hends := (hcompiled p.code 0).same (by
      intro k
      rw [hhalt]
      nofun)
    refine ⟨p, _, hp, ?_, ?_, hends⟩
    · exact hhalt
    · exact hsteps

end TapeFold
