import TapeFold.Proofs.Frame

/-!
# Runs under a limit

A step counts one. A run under a limit goes the way of the same run without one as far as the limit
allows, and then ends with a fault of its own (`Regular.limited`), so both come to the same end if
the limit is not exceeded (`Regular.ends_limited`, `Regular.ends_of_limited`).
-/

namespace TapeFold.Machine

/-- The run from `m` ends with `e`. -/
def Ends (step : Execution Bool) (m : Machine) (e : Ending) : Prop :=
  ∃ n m', Walk step n m m' ∧ Stops step m' e

/-- One machine without a limit and with it. -/
structure Limited (limit : Int) (m c : Machine) : Prop extends Untimed m c where
  unlimited : m.maxSteps = none
  limited : c.maxSteps = some limit
  steps : c.steps = m.steps

/-- The steps of an ending are within the limit, or none has been counted. -/
def InTime (limit : Int) (m : Machine) (steps : Nat) : Prop :=
  (steps : Int) ≤ limit ∨ steps = m.steps

variable {ready : Execution Bool} {act : Execution Unit} {m m' m₁ c c' : Machine} {e e' : Ending}
  {n k : Nat} {limit : Int}

theorem Ends.unique {step : Execution Bool} (h : Ends step m e) (h' : Ends step m e') : e = e' := by
  obtain ⟨n, m', hw, hs⟩ := h
  obtain ⟨k, m₁, hw', hs'⟩ := h'
  exact (hw.stops_unique hs hw' hs').2

theorem Ends.cons {step : Execution Bool} (hs : step m = .ok true m₁) (h : Ends step m₁ e) :
    Ends step m e := by
  obtain ⟨n, m', hw, hs'⟩ := h
  exact ⟨n + 1, m', .cons hs hw, hs'⟩

theorem Ends.halted {step : Execution Bool} (h : Ends step m e) : e.halt ≠ .unfinished := by
  obtain ⟨_, _, _, hs⟩ := h
  exact hs.halted

/-- The run goes on to the same end from wherever it has come to. -/
theorem Ends.of_walk {step : Execution Bool} (h : Ends step m e) (hw : Walk step n m m') :
    Ends step m' e := by
  obtain ⟨k, m₁, hw₁, hs⟩ := h
  exact ⟨k - n, m₁, hw.suffix hw₁ (hw₁.le_of_stops hs hw), hs⟩

/-- An end depends on the next step alone. -/
theorem Ends.congr {step : Execution Bool} (h : Ends step m e) (hs : step m = step m') :
    Ends step m' e := by
  obtain ⟨k, m₁, hw, hstop⟩ := h
  exact ⟨k, hw.stops_congr hstop hs.symm⟩

theorem Stops.after_eq {step : Execution Bool} (h : Stops step m e) :
    after (step m) = e.machine := by
  cases h with
  | finished h => rw [h]; rfl
  | faulted h => rw [h]; rfl

theorem Limited.of_limit (h : c.maxSteps = some limit) :
    Limited limit { c with maxSteps := none } c :=
  ⟨⟨⟨rfl, rfl, rfl, rfl, rfl, rfl⟩, rfl, rfl, rfl⟩, rfl, h, rfl⟩

theorem Limited.ticked (h : Limited limit m c) : Limited limit m.ticked c.ticked :=
  ⟨⟨⟨h.tape, h.input, h.output, h.eofValue, h.cursor, h.focus⟩, h.linearEvaluations,
    h.fallbackPasses, h.scanPasses⟩, h.unlimited, h.limited, congrArg (· + 1) h.steps⟩

/-- Under the limit the machine is the same but for the limit. -/
theorem Limited.eq (h : Limited limit m c) : c = { m with maxSteps := some limit } := by
  obtain ⟨⟨⟨htape, hin, hout, heof, hcursor, hfocus⟩, hlinear, hfallback, hscan⟩, -, hl, hs⟩ := h
  obtain ⟨tape, input, output, eof, maxSteps, cursor, focus, steps, linear, fallback, scan⟩ := c
  simp only at htape hin hout heof hcursor hfocus hlinear hfallback hscan hl hs
  rw [htape, hin, hout, heof, hcursor, hfocus, hlinear, hfallback, hscan, hl, hs]

/-- What leaves the clock alone does the same under the limit. -/
theorem Limited.outcome {α : Type} {x y : Execution α} (h : Limited limit m c)
    (hxy : Outcome Untimed (x m) (y c)) (hm : Later m (after (x m))) (hc : Later c (after (y c))) :
    Outcome (Limited limit) (x m) (y c) := by
  have hlimited (m' c' : Machine) (ha : Untimed m' c') (hm : Later m m') (hc : Later c c') :
      Limited limit m' c' :=
    ⟨ha, hm.maxSteps.trans h.unlimited, hc.maxSteps.trans h.limited,
      hc.steps.trans (h.steps.trans hm.steps.symm)⟩
  match hx : x m, hy : y c, hxy with
  | _, _, .ok a ha =>
    rw [hx] at hm
    rw [hy] at hc
    exact .ok a (hlimited _ _ ha hm hc)
  | _, _, .error f ha =>
    rw [hx] at hm
    rw [hy] at hc
    exact .error f (hlimited _ _ ha hm hc)

namespace Regular
variable (h : Regular ready act)
include h

/-! ### One step -/

/-- A step that has something to do counts one. -/
theorem clock_of_ready (hl : m.maxSteps = none) (hr : ready m = .ok true m₁) :
    (after (counted ready act m)).steps = m.steps + 1 ∧
      (after (counted ready act m)).maxSteps = none := by
  have hstill := h.still m
  rw [hr] at hstill
  have hl₁ : m₁.maxSteps = none := hstill.maxSteps.trans hl
  have hs₁ : m₁.ticked.steps = m.steps + 1 := congrArg (· + 1) hstill.steps
  have ha := h.later m₁.ticked
  rw [counted_of_ready hr hl₁]
  match hact : act m₁.ticked with
  | .ok () m' =>
    rw [hact] at ha
    exact ⟨ha.steps.trans hs₁, ha.maxSteps.trans hl₁⟩
  | .error f m' =>
    rw [hact] at ha
    exact ⟨ha.steps.trans hs₁, ha.maxSteps.trans hl₁⟩

theorem maxSteps_of_ok (hs : counted ready act m = .ok true m') : m'.maxSteps = m.maxSteps := by
  obtain ⟨m₁, hr, -, ha⟩ := exists_of_counted_ok hs
  have hstill := h.still m
  have hlater := h.later m₁.ticked
  rw [hr] at hstill
  rw [ha] at hlater
  exact hlater.maxSteps.trans hstill.maxSteps

theorem clock_of_ok (hl : m.maxSteps = none) (hs : counted ready act m = .ok true m') :
    m'.steps = m.steps + 1 ∧ m'.maxSteps = none := by
  match hr : ready m with
  | .error f m₁ => cases (counted_of_ready_error hr).symm.trans hs
  | .ok false m₁ => cases (counted_of_not_ready hr).symm.trans hs
  | .ok true m₁ =>
    have hclock := h.clock_of_ready hl hr
    rw [hs] at hclock
    exact hclock

theorem steps_le_of_stops (hl : m.maxSteps = none) (hs : Stops (counted ready act) m e) :
    m.steps ≤ e.machine.steps := by
  have hstill := h.still m
  have hafter := hs.after_eq
  match hr : ready m with
  | .error f m₁ =>
    rw [hr] at hstill
    rw [counted_of_ready_error hr] at hafter
    rw [← hafter]
    exact Nat.le_of_eq hstill.steps.symm
  | .ok false m₁ =>
    rw [hr] at hstill
    rw [counted_of_not_ready hr] at hafter
    rw [← hafter]
    exact Nat.le_of_eq hstill.steps.symm
  | .ok true m₁ =>
    have hclock := (h.clock_of_ready hl hr).1
    rw [hafter] at hclock
    omega

/-- A step under a limit is the step without it, or exceeds the limit. -/
theorem limited (hmc : Limited limit m c) :
    (Outcome (Limited limit) (counted ready act m) (counted ready act c) ∧
      InTime limit m (after (counted ready act m)).steps) ∨
    limit < m.steps + 1 ∧ (after (counted ready act m)).steps = m.steps + 1 ∧
      ∃ c', counted ready act c = .error (.stepLimit limit) c' ∧ c'.steps = m.steps + 1 ∧
        c'.output = m.output ∧ c'.input = m.input := by
  have hstill := h.still m
  match hm : ready m, hc : ready c, hmc.outcome (h.ready_untimed m c hmc.toUntimed)
    (h.still m).later (h.still c).later with
  | _, _, .error (m := m₁) f hl =>
    rw [hm] at hstill
    rw [counted_of_ready_error hm, counted_of_ready_error hc]
    exact .inl ⟨.error f hl, .inr hstill.steps⟩
  | _, _, .ok (m := m₁) false hl =>
    rw [hm] at hstill
    rw [counted_of_not_ready hm, counted_of_not_ready hc]
    exact .inl ⟨.ok false hl, .inr hstill.steps⟩
  | _, _, .ok (m := m₁) (c := c₁) true hl =>
    rw [hm] at hstill
    have hs₁ : m₁.steps = m.steps := hstill.steps
    have hs₂ : c₁.steps = m.steps := hl.steps.trans hs₁
    have hafter := (h.clock_of_ready hmc.unlimited hm).1
    rcases Int.lt_or_le limit ((m.steps + 1 : Nat) : Int) with hlt | hle
    · refine .inr ⟨hlt, hafter, c₁.ticked, ?_, congrArg (· + 1) hs₂, ?_, ?_⟩
      · exact counted_of_tick_error hc (tick_of_lt hl.limited (by rwa [hs₂]))
      · exact hl.output.symm.trans hstill.output
      · exact hl.input.symm.trans hstill.input
    · refine .inl ⟨?_, .inl (by rwa [hafter])⟩
      rw [counted_of_ready hm hl.unlimited,
        counted_of_tick hc (tick_of_le hl.limited (by rwa [hs₂]))]
      match act m₁.ticked, act c₁.ticked, hl.ticked.outcome
        (h.act_untimed _ _ hl.ticked.toUntimed) (h.later _) (h.later _) with
      | _, _, .ok () hl' => exact .ok true hl'
      | _, _, .error f hl' => exact .error f hl'

/-! ### Whole runs -/

theorem clock_of_walk (hl : m.maxSteps = none) (hw : Walk (counted ready act) n m m') :
    m'.steps = m.steps + n ∧ m'.maxSteps = none := by
  induction hw with
  | refl => exact ⟨rfl, hl⟩
  | cons hs _ ih =>
    obtain ⟨hs₁, hl₁⟩ := h.clock_of_ok hl hs
    obtain ⟨hs', hl'⟩ := ih hl₁
    exact ⟨by rw [hs', hs₁]; omega, hl'⟩

theorem goesOn (m : Machine) : GoesOn m (after (counted ready act m)) := by
  have hr := h.still m
  match hm : ready m with
  | .error f m₁ =>
    rw [hm] at hr
    rw [counted_of_ready_error hm]
    exact hr.goesOn
  | .ok false m₁ =>
    rw [hm] at hr
    rw [counted_of_not_ready hm]
    exact hr.goesOn
  | .ok true m₁ =>
    rw [hm] at hr
    have htick : GoesOn m₁ (after (tick m₁)) := by
      unfold tick
      simp only
      split
      · exact ⟨List.suffix_rfl, List.prefix_rfl⟩
      · split <;> exact ⟨List.suffix_rfl, List.prefix_rfl⟩
    match ht : tick m₁ with
    | .error f m₂ =>
      rw [ht] at htick
      rw [counted_of_tick_error hm ht]
      exact hr.goesOn.trans htick
    | .ok () m₂ =>
      rw [ht] at htick
      rw [counted_of_tick hm ht]
      have ha := h.later m₂
      match hact : act m₂ with
      | .ok () m' =>
        rw [hact] at ha
        exact hr.goesOn.trans (htick.trans ha.toGoesOn)
      | .error f m' =>
        rw [hact] at ha
        exact hr.goesOn.trans (htick.trans ha.toGoesOn)

theorem goesOn_of_walk (hw : Walk (counted ready act) n m m') : GoesOn m m' := by
  induction hw with
  | refl => exact .rfl
  | @cons n m m₁ m' hs _ ih =>
    have h₁ := h.goesOn m
    rw [hs] at h₁
    exact h₁.trans ih

theorem goesOn_of_stops (hs : Stops (counted ready act) m e) : GoesOn m e.machine := by
  have h₁ := h.goesOn m
  rwa [hs.after_eq] at h₁

theorem goesOn_of_ends (hw : Walk (counted ready act) n m m') (he : Ends (counted ready act) m e) :
    GoesOn m' e.machine := by
  obtain ⟨k, m₁, hw₁, hs⟩ := he.of_walk hw
  exact (h.goesOn_of_walk hw₁).trans (h.goesOn_of_stops hs)

theorem walk_limited (hmc : Limited limit m c) (hw : Walk (counted ready act) n m m')
    (hn : InTime limit m (m.steps + n)) :
    ∃ c', Walk (counted ready act) n c c' ∧ Limited limit m' c' := by
  induction hw generalizing c with
  | refl => exact ⟨c, .refl, hmc⟩
  | @cons n m m₁ m' hs _ ih =>
    have hn : ((m.steps + (n + 1) : Nat) : Int) ≤ limit := by
      unfold InTime at hn
      omega
    rcases h.limited hmc with ⟨ho, -⟩ | ⟨hlt, -⟩
    · obtain ⟨c₁, hc, hmc₁⟩ := ho.exists_step hs
      obtain ⟨hs₁, -⟩ := h.clock_of_ok hmc.unlimited hs
      obtain ⟨c', hw', hmc'⟩ := ih hmc₁ (.inl (by rw [hs₁]; omega))
      exact ⟨c', .cons hc hw', hmc'⟩
    · omega

theorem walk_of_limited (hmc : Limited limit m c) (hw : Walk (counted ready act) n c c') :
    ∃ m', Walk (counted ready act) n m m' ∧ Limited limit m' c' ∧
      InTime limit m (m.steps + n) := by
  induction hw generalizing m with
  | refl => exact ⟨m, .refl, hmc, .inr rfl⟩
  | @cons n c c₁ c' hs _ ih =>
    rcases h.limited hmc with ⟨ho, ht⟩ | ⟨-, -, c₂, hc, -⟩
    · obtain ⟨m₁, hm, hmc₁⟩ := ho.flip.exists_step hs
      obtain ⟨hs₁, -⟩ := h.clock_of_ok hmc.unlimited hm
      obtain ⟨m', hw', hmc', ht'⟩ := ih hmc₁
      refine ⟨m', .cons hm hw', hmc', .inl ?_⟩
      rw [hm] at ht
      have hle : (m₁.steps : Int) ≤ limit := ht.resolve_right fun heq => by
        have : m₁.steps = m.steps := heq
        omega
      rcases ht' with ht' | ht' <;> omega
    · cases hs.symm.trans hc

/-- Where a run stops within the limit, it stops under the limit as well. -/
theorem ends_limited (hmc : Limited limit m c) (he : Ends (counted ready act) m e)
    (ht : InTime limit m e.machine.steps) :
    ∃ e', Ends (counted ready act) c e' ∧ e'.halt = e.halt ∧
      Limited limit e.machine e'.machine := by
  obtain ⟨n, m', hw, hs⟩ := he
  obtain ⟨hsteps, hl⟩ := h.clock_of_walk hmc.unlimited hw
  have hle := h.steps_le_of_stops hl hs
  obtain ⟨c', hw', hmc'⟩ := h.walk_limited hmc hw (by unfold InTime at ht ⊢; omega)
  rcases h.limited hmc' with ⟨ho, -⟩ | ⟨hlt, hafter, -⟩
  · obtain ⟨e', hs', hh, hmc₁⟩ := ho.exists_stops hs
    exact ⟨e', ⟨n, c', hw', hs'⟩, hh, hmc₁⟩
  · rw [hs.after_eq] at hafter
    unfold InTime at ht
    omega

/-- A run under a limit ends as it does without, or on the step that exceeds the limit. -/
theorem ends_of_limited (hmc : Limited limit m c) (he : Ends (counted ready act) c e') :
    (∃ e, Ends (counted ready act) m e ∧ e.halt = e'.halt ∧
      Limited limit e.machine e'.machine ∧ InTime limit m e.machine.steps) ∨
    e'.halt = .faulted (.stepLimit limit) ∧ ∃ n m', Walk (counted ready act) n m m' ∧
      InTime limit m (m.steps + n) ∧ limit < m.steps + n + 1 ∧
      e'.machine.steps = m.steps + n + 1 ∧ e'.machine.output = m'.output ∧
      e'.machine.input = m'.input := by
  obtain ⟨n, c', hw, hs⟩ := he
  obtain ⟨m', hw', hmc', ht⟩ := h.walk_of_limited hmc hw
  obtain ⟨hsteps, hl⟩ := h.clock_of_walk hmc.unlimited hw'
  rcases h.limited hmc' with ⟨ho, ht'⟩ | ⟨hlt, -, c₁, hc, hsteps', hout, hin⟩
  · have htime (k : Nat) (hk : InTime limit m' k) : InTime limit m k := by
      unfold InTime at hk ht ⊢
      omega
    obtain ⟨e, hs', hh, hmc₁⟩ := ho.flip.exists_stops hs
    refine .inl ⟨e, ⟨n, m', hw', hs'⟩, hh, hmc₁, htime _ ?_⟩
    rwa [hs'.after_eq] at ht'
  · obtain rfl := hs.unique (.faulted hc)
    exact .inr ⟨rfl, n, m', hw', ht, by omega, by rw [hsteps', hsteps], hout, hin⟩

/-- A run that never ends without a limit exceeds any limit. -/
theorem exceeds_limit (hmc : Limited limit m c) (hnever : ∀ e, ¬ Ends (counted ready act) m e)
    (he : Ends (counted ready act) c e') :
    e'.halt = .faulted (.stepLimit limit) ∧ limit < e'.machine.steps := by
  rcases h.ends_of_limited hmc he with ⟨e, he, -⟩ | ⟨hh, n, m', -, -, hlt, hsteps, -⟩
  · exact absurd he (hnever e)
  · exact ⟨hh, by omega⟩

/-! ### Patience -/

theorem ends_iterate (hc : c.maxSteps = some limit) (hk : limit < c.steps + k) (hk' : 0 < k) :
    Ends (counted ready act) c (iterate (counted ready act) k c) := by
  by_cases hh : (iterate (counted ready act) k c).halt = .unfinished
  · obtain ⟨m', -, -, ht⟩ := h.walk_of_limited (.of_limit hc) (walk_of_iterate_unfinished hh)
    have ht' : ((c.steps + k : Nat) : Int) ≤ limit ∨ c.steps + k = c.steps := ht
    omega
  · obtain ⟨n, m', -, hw, hs⟩ := exists_walk_of_iterate rfl hh
    exact ⟨n, m', hw, hs⟩

/-- Under a limit, a run takes as many steps as it needs. -/
theorem ends_bounded (hc : c.maxSteps = some limit) (p : Nat) :
    Ends (counted ready act) c (iterate (counted ready act) (c.stepBound?.getD p) c) := by
  rw [stepBound?, hc]
  exact h.ends_iterate (k := (limit - c.steps).toNat + 1) hc (by omega) (Nat.succ_pos _)

theorem exists_ends (hc : c.maxSteps = some limit) : ∃ e, Ends (counted ready act) c e :=
  ⟨_, h.ends_bounded hc 0⟩

theorem iterate_eq_of_ends (he : Ends (counted ready act) m e) :
    ∃ patience, ∀ p, patience ≤ p →
      iterate (counted ready act) (m.stepBound?.getD p) m = e := by
  match hm : m.maxSteps with
  | none =>
    obtain ⟨n, m', hw, hs⟩ := he
    refine ⟨n + 1, fun p hp => ?_⟩
    rw [stepBound?, hm]
    exact iterate_eq_of_stops hw hs hp
  | some limit => exact ⟨0, fun p _ => (h.ends_bounded hm p).unique he⟩

end Regular

end TapeFold.Machine
