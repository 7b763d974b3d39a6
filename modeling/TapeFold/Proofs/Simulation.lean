import TapeFold.Proofs.Walk

/-!
# Simulation between two runs

Two runs are compared block by block: from related machines each takes at least one step to related
machines again, or both come to a stop (`Simulates`). Then either run ends whenever the other does,
with related endings (`Simulates.stops`, `Simulates.stops_of_stops`), and each machine of the first
run has a related one of the second that has read and written as much (`Simulates.reaches`).
-/

namespace TapeFold.Machine

/-- The first `k` steps from `m` read and write nothing. -/
def Quiet (step : Execution Bool) (k : Nat) (m : Machine) : Prop :=
  ∀ i m', i ≤ k → Walk step i m m' → m'.output = m.output ∧ m'.input = m.input

/-- A walk that reads and writes nothing. -/
structure SilentWalk (step : Execution Bool) (n : Nat) (m m' : Machine) : Prop where
  walk : Walk step n m m'
  quiet : Quiet step n m

/-- The two runs go on to related machines, or both stop. Before its last step, the block of the
first run is quiet. -/
inductive Block (step step' : Execution Bool) (R : Machine → Machine → Prop)
    (S : Ending → Ending → Prop) (m c : Machine) : Prop
  | on {k j : Nat} {m' c' : Machine} (hm : Walk step (k + 1) m m') (hc : Walk step' (j + 1) c c')
      (hq : Quiet step k m) (hR : R m' c')
  | stop {k j : Nat} {m' c' : Machine} {e e' : Ending} (hm : Walk step k m m')
      (hc : Walk step' j c c') (hq : Quiet step k m) (hs : Stops step m' e)
      (hs' : Stops step' c' e') (hS : S e e')

/-- Related machines have a block of steps in common. -/
def Simulates (step step' : Execution Bool) (R : Machine → Machine → Prop)
    (S : Ending → Ending → Prop) : Prop :=
  ∀ m c, R m c → Block step step' R S m c

theorem Quiet.zero {step : Execution Bool} {m : Machine} : Quiet step 0 m := by
  intro i m' hi hw
  obtain rfl : i = 0 := Nat.le_zero.1 hi
  rw [hw.eq_of_zero]
  exact ⟨rfl, rfl⟩

section
variable {step step' : Execution Bool} {R : Machine → Machine → Prop} {S : Ending → Ending → Prop}
  {m m' m₁ c c' : Machine} {e e' : Ending} {n k : Nat}

theorem Quiet.cons (hs : step m = .ok true m₁) (ho : m₁.output = m.output)
    (hi : m₁.input = m.input) (hq : Quiet step k m₁) : Quiet step (k + 1) m := by
  intro i m' hle hw
  cases hw with
  | refl => exact ⟨rfl, rfl⟩
  | cons hs' hw =>
    rw [hs] at hs'
    injection hs' with _ hm
    subst hm
    rw [← ho, ← hi]
    exact hq _ _ (Nat.le_of_succ_le_succ hle) hw

theorem Quiet.append (hn : Quiet step n m) (hw : Walk step n m m₁) (hk : Quiet step k m₁) :
    Quiet step (n + k) m := by
  intro i m' hle hw'
  rcases Nat.le_total i n with h | h
  · exact hn i m' h hw'
  · have hm := hn n m₁ (Nat.le_refl n) hw
    rw [← hm.1, ← hm.2]
    exact hk (i - n) m' (by omega) (hw.suffix hw' h)

theorem SilentWalk.refl : SilentWalk step 0 m m := ⟨.refl, .zero⟩

theorem SilentWalk.cons (hs : step m = .ok true m₁) (ho : m₁.output = m.output)
    (hi : m₁.input = m.input) (h : SilentWalk step n m₁ m') : SilentWalk step (n + 1) m m' :=
  ⟨.cons hs h.walk, h.quiet.cons hs ho hi⟩

theorem SilentWalk.trans (h : SilentWalk step n m m₁) (h' : SilentWalk step k m₁ m') :
    SilentWalk step (n + k) m m' :=
  ⟨h.walk.trans h'.walk, h.quiet.append h.walk h'.quiet⟩

theorem Block.of_silent (hm : SilentWalk step (n + 1) m m') (hc : Walk step' (k + 1) c c')
    (hR : R m' c') : Block step step' R S m c :=
  .on hm.walk hc (fun i m₁ hi => hm.quiet i m₁ (Nat.le_succ_of_le hi)) hR

/-- A block may be reached by a silent walk of the first run and any walk of the second. -/
theorem Block.prepend {j : Nat} (hm : SilentWalk step n m m₁) {c₁ : Machine}
    (hc : Walk step' j c c₁) (h : Block step step' R S m₁ c₁) : Block step step' R S m c := by
  cases h with
  | @on k j' m' c' hm' hc' hq hR =>
    exact .on (k := n + k) (j := j + j') (hm.walk.trans hm') (hc.trans hc')
      (hm.quiet.append hm.walk hq) hR
  | stop hm' hc' hq hs hs' hS =>
    exact .stop (hm.walk.trans hm') (hc.trans hc') (hm.quiet.append hm.walk hq) hs hs' hS

theorem Block.congr {m₀ c₀ : Machine} (h : Block step step' R S m₀ c₀) (hm : step m = step m₀)
    (hc : step' c = step' c₀) (ho : m₀.output = m.output) (hi : m₀.input = m.input) :
    Block step step' R S m c := by
  have hquiet {k : Nat} (hq : Quiet step k m₀) : Quiet step k m := by
    intro i m' hik hw
    cases hw with
    | refl => exact ⟨rfl, rfl⟩
    | cons hs hw =>
      have h₀ := hq _ m' hik (.cons (hm.symm.trans hs) hw)
      exact ⟨h₀.1.trans ho, h₀.2.trans hi⟩
  cases h with
  | on hm' hc' hq hR => exact .on (hm'.congr hm) (hc'.congr hc) (hquiet hq) hR
  | stop hm' hc' hq hs hs' hS =>
    obtain ⟨m'', hw, hst⟩ := hm'.stops_congr hs hm
    obtain ⟨c'', hw', hst'⟩ := hc'.stops_congr hs' hc
    exact .stop hw hw' (hquiet hq) hst hst' hS

theorem Simulates.stops (h : Simulates step step' R S) (hR : R m c) (hw : Walk step n m m')
    (hs : Stops step m' e) : ∃ k c' e', Walk step' k c c' ∧ Stops step' c' e' ∧ S e e' := by
  induction n using Nat.strongRecOn generalizing m c with
  | ind n ih =>
    match h m c hR with
    | .on hm hc _ hR' =>
      have hle := hw.le_of_stops hs hm
      obtain ⟨k, c', e', hc', hs', hS⟩ := ih _ (by omega) hR' (hm.suffix hw hle)
      exact ⟨_, c', e', hc.trans hc', hs', hS⟩
    | .stop hm hc _ hs₁ hs' hS =>
      obtain ⟨-, rfl⟩ := hw.stops_unique hs hm hs₁
      exact ⟨_, _, _, hc, hs', hS⟩

theorem Simulates.stops_of_stops (h : Simulates step step' R S) (hR : R m c)
    (hw : Walk step' n c c') (hs : Stops step' c' e') :
    ∃ k m' e, Walk step k m m' ∧ Stops step m' e ∧ S e e' := by
  induction n using Nat.strongRecOn generalizing m c with
  | ind n ih =>
    match h m c hR with
    | .on hm hc _ hR' =>
      have hle := hw.le_of_stops hs hc
      obtain ⟨k, m', e, hm', hs', hS⟩ := ih _ (by omega) hR' (hc.suffix hw hle)
      exact ⟨_, m', e, hm.trans hm', hs', hS⟩
    | .stop hm hc _ hs₁ hs' hS =>
      obtain ⟨-, rfl⟩ := hw.stops_unique hs hc hs'
      exact ⟨_, _, _, hm, hs₁, hS⟩

/-- Wherever the first run has come, the second comes to a machine that is related to an earlier
one of the first run, after which nothing has been read or written. -/
theorem Simulates.reaches (h : Simulates step step' R S) (hR : R m c) (hw : Walk step n m m') :
    ∃ k m₀ j c', k ≤ n ∧ Walk step k m m₀ ∧ Walk step' j c c' ∧ R m₀ c' ∧
      m'.output = m₀.output ∧ m'.input = m₀.input := by
  induction n using Nat.strongRecOn generalizing m c with
  | ind n ih =>
    match h m c hR with
    | .on (k := k) hm hc hq hR' =>
      rcases Nat.lt_or_ge k n with hkn | hkn
      · obtain ⟨i, m₀, j, c', hi, hm₀, hc', hR₀, hio⟩ := ih _ (by omega) hR' (hm.suffix hw hkn)
        exact ⟨_, m₀, _, c', by omega, hm.trans hm₀, hc.trans hc', hR₀, hio⟩
      · exact ⟨0, m, 0, c, Nat.zero_le n, .refl, .refl, hR, hq n m' hkn hw⟩
    | .stop hm _ hq hs _ _ =>
      exact ⟨0, m, 0, c, Nat.zero_le n, .refl, .refl, hR, hq n m' (hm.le_of_stops hs hw) hw⟩

end

end TapeFold.Machine
