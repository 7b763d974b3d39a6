import TapeFold.Machine

/-!
# Runs as walks

`Walk step n m m'` says that `n` steps lead from `m` to `m'` and none of them stops, `Stops step m e`
that the next step from `m` ends the run with `e`. A run that ends is a walk and then a stop
(`iterate_eq_of_stops`, `exists_walk_of_iterate`).
-/

namespace TapeFold.Machine

/-- `n` steps, none of which stops, lead from one machine to the other. -/
inductive Walk (step : Execution Bool) : Nat → Machine → Machine → Prop
  | refl {m : Machine} : Walk step 0 m m
  | cons {n : Nat} {m m₁ m' : Machine} (h : step m = .ok true m₁) (hw : Walk step n m₁ m') :
      Walk step (n + 1) m m'

/-- The next step ends the run. -/
inductive Stops (step : Execution Bool) (m : Machine) : Ending → Prop
  | finished {m' : Machine} (h : step m = .ok false m') : Stops step m ⟨m', .finished⟩
  | faulted {f : Fault} {m' : Machine} (h : step m = .error f m') : Stops step m ⟨m', .faulted f⟩

section
variable {step : Execution Bool} {m m' m₁ m₂ : Machine} {e e' : Ending} {n k : Nat}

theorem Walk.single (h : step m = .ok true m') : Walk step 1 m m' := .cons h .refl

theorem Walk.trans (h : Walk step n m m₁) (h' : Walk step k m₁ m') : Walk step (n + k) m m' := by
  induction h with
  | refl => rwa [Nat.zero_add]
  | cons hs _ ih => rw [Nat.succ_add]; exact .cons hs (ih h')

/-- A step is a function, so a walk is given by its length. -/
theorem Walk.unique (h₁ : Walk step n m m₁) (h₂ : Walk step n m m₂) : m₁ = m₂ := by
  induction h₁ with
  | refl => cases h₂; rfl
  | cons hs _ ih =>
    obtain _ | ⟨hs', h₂⟩ := h₂
    rw [hs] at hs'
    injection hs' with _ hm
    subst hm
    exact ih h₂

theorem Walk.eq_of_zero (h : Walk step 0 m m') : m = m' := by
  cases h; rfl

theorem Walk.split (h : Walk step (n + k) m m') : ∃ m₁, Walk step n m m₁ ∧ Walk step k m₁ m' := by
  induction n generalizing m with
  | zero => exact ⟨m, .refl, by rwa [Nat.zero_add] at h⟩
  | succ n ih =>
    rw [Nat.succ_add] at h
    obtain _ | ⟨hs, h⟩ := h
    obtain ⟨m₁, h₁, h₂⟩ := ih h
    exact ⟨m₁, .cons hs h₁, h₂⟩

/-- The longer of two walks from one machine passes through the end of the shorter. -/
theorem Walk.suffix (h₁ : Walk step n m m₁) (h₂ : Walk step k m m₂) (hnk : n ≤ k) :
    Walk step (k - n) m₁ m₂ := by
  obtain ⟨d, rfl⟩ := Nat.exists_eq_add_of_le hnk
  obtain ⟨m₃, h₃, h₄⟩ := h₂.split
  rw [h₁.unique h₃, Nat.add_sub_cancel_left]
  exact h₄

theorem Stops.halted (h : Stops step m e) : e.halt ≠ .unfinished := by
  cases h <;> simp

theorem Stops.not_step (h : Stops step m e) : step m ≠ .ok true m' := by
  cases h with
  | finished h => simp [h]
  | faulted h => simp [h]

theorem Stops.unique (h : Stops step m e) (h' : Stops step m e') : e = e' := by
  cases h <;> cases h' <;> simp_all

/-- Whether a run stops depends on the next step alone. -/
theorem Stops.congr {step' : Execution Bool} (h : Stops step m e) (heq : step' m' = step m) :
    Stops step' m' e := by
  cases h with
  | finished h => exact .finished (heq.trans h)
  | faulted h => exact .faulted (heq.trans h)

theorem Walk.congr (hw : Walk step (n + 1) m m') (heq : step m₁ = step m) :
    Walk step (n + 1) m₁ m' := by
  obtain _ | ⟨hs, hw⟩ := hw
  exact .cons (heq.trans hs) hw

theorem Walk.stops_congr (hw : Walk step n m m') (hs : Stops step m' e) (heq : step m₁ = step m) :
    ∃ m₂, Walk step n m₁ m₂ ∧ Stops step m₂ e := by
  cases hw with
  | refl => exact ⟨m₁, .refl, hs.congr heq⟩
  | cons hstep hw => exact ⟨m', .cons (heq.trans hstep) hw, hs⟩

theorem Stops.walk_eq (hs : Stops step m e) (hw : Walk step n m m') : n = 0 ∧ m' = m := by
  cases hw with
  | refl => exact ⟨rfl, rfl⟩
  | cons h _ => exact absurd h hs.not_step

theorem Walk.le_of_stops (h₁ : Walk step n m m₁) (hs : Stops step m₁ e) (h₂ : Walk step k m m₂) :
    k ≤ n := by
  rcases Nat.le_total k n with h | h
  · exact h
  · have := (hs.walk_eq (h₁.suffix h₂ h)).1
    omega

theorem Walk.stops_unique (h₁ : Walk step n m m₁) (hs₁ : Stops step m₁ e) (h₂ : Walk step k m m₂)
    (hs₂ : Stops step m₂ e') : n = k ∧ e = e' := by
  have hnk : n = k := Nat.le_antisymm (h₂.le_of_stops hs₂ h₁) (h₁.le_of_stops hs₁ h₂)
  subst hnk
  rw [h₁.unique h₂] at hs₁
  exact ⟨rfl, hs₁.unique hs₂⟩

theorem exists_stops_or_step (step : Execution Bool) (m : Machine) :
    (∃ e, Stops step m e) ∨ ∃ m', step m = .ok true m' := by
  match h : step m with
  | .ok true m' => exact .inr ⟨m', rfl⟩
  | .ok false m' => exact .inl ⟨_, .finished h⟩
  | .error f m' => exact .inl ⟨_, .faulted h⟩

theorem iterate_of_walk (h : Walk step n m m') (k : Nat) :
    iterate step (n + k) m = iterate step k m' := by
  induction h with
  | refl => rw [Nat.zero_add]
  | cons hs _ ih => rw [Nat.succ_add]; simp only [iterate, hs, ih]

theorem iterate_eq_of_stops (h : Walk step n m m') (hs : Stops step m' e) (hk : n < k) :
    iterate step k m = e := by
  obtain ⟨d, rfl⟩ := Nat.exists_eq_add_of_lt hk
  rw [Nat.add_assoc, iterate_of_walk h]
  cases hs with
  | finished hs => simp only [iterate, hs]
  | faulted hs => simp only [iterate, hs]

theorem walk_of_iterate_unfinished (h : (iterate step n m).halt = .unfinished) :
    Walk step n m (iterate step n m).machine := by
  induction n generalizing m with
  | zero => exact .refl
  | succ n ih =>
    simp only [iterate] at h ⊢
    match hs : step m with
    | .ok true m' => rw [hs] at h; exact .cons hs (ih h)
    | .ok false m' => simp [hs] at h
    | .error f m' => simp [hs] at h

theorem exists_walk_of_iterate (h : iterate step k m = e) (he : e.halt ≠ .unfinished) :
    ∃ n m', n < k ∧ Walk step n m m' ∧ Stops step m' e := by
  induction k generalizing m with
  | zero => subst h; exact absurd rfl he
  | succ k ih =>
    rcases exists_stops_or_step step m with ⟨e', hs⟩ | ⟨m', hs⟩
    · rw [iterate_eq_of_stops .refl hs (Nat.succ_pos k)] at h
      exact ⟨0, m, Nat.succ_pos k, .refl, h ▸ hs⟩
    · rw [Nat.add_comm, iterate_of_walk (.single hs)] at h
      obtain ⟨n, m₁, hn, hw, hs₁⟩ := ih h
      exact ⟨n + 1, m₁, Nat.succ_lt_succ hn, .cons hs hw, hs₁⟩

end

end TapeFold.Machine
