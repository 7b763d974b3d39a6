import Mathlib.Data.List.Infix
import TapeFold.Bracket

/-!
# Pairing brackets

`Pairing w n pairs stack` holds of what the reference knows after `n` of the symbols `w`. It finds a
partner for every bracket just if the brackets are balanced (`Symbol.balanced_iff`).
-/

namespace TapeFold

/-- What the reference knows after `n` of the symbols `w`: the partner of each bracket that has been
closed, and a stack of the others. -/
structure Pairing (w : List Symbol) (n : Nat) (pairs : BracketPairs) (stack : List Nat) : Prop where
  size : pairs.size = n
  opens : ∀ k, k < n → w[k]? = some .loopOpen → k ∈ stack ∨ ∃ j, k < j ∧ j < n ∧
    w[j]? = some .loopClose ∧ pairs[k]? = some (some j) ∧ pairs[j]? = some (some k)
  closes : ∀ k, k < n → w[k]? = some .loopClose → ∃ j, j < k ∧ w[j]? = some .loopOpen ∧
    pairs[k]? = some (some j) ∧ pairs[j]? = some (some k)
  stacked : ∀ k ∈ stack, k < n ∧ w[k]? = some .loopOpen ∧ pairs[k]? = some none
  sorted : stack.Pairwise (· > ·)

namespace Pairing
variable {w : List Symbol} {n p : Nat} {pairs : BracketPairs} {stack : List Nat} {s : Symbol}

theorem empty (w : List Symbol) : Pairing w 0 #[] [] := by
  refine ⟨rfl, ?_, ?_, ?_, .nil⟩
  · intro k hk; omega
  · intro k hk; omega
  · intro k hk; cases hk

theorem getElem?_push_of_lt {x : Option Nat} {k : Nat} (h : Pairing w n pairs stack) (hk : k < n) :
    (pairs.push x)[k]? = pairs[k]? := by
  rw [Array.getElem?_push, if_neg (by rw [h.size]; omega)]

theorem push (h : Pairing w n pairs stack) (hs : w[n]? = some s) (hc : s ≠ .loopClose) :
    Pairing w (n + 1) (pairs.push none) (if s = .loopOpen then n :: stack else stack) := by
  have hstack : ∀ k ∈ stack, k < n + 1 ∧ w[k]? = some .loopOpen ∧
      (pairs.push none)[k]? = some none := fun k hk => by
    obtain ⟨hlt, ho, hp⟩ := h.stacked k hk
    exact ⟨Nat.lt_succ_of_lt hlt, ho, by rw [h.getElem?_push_of_lt hlt, hp]⟩
  refine ⟨by rw [Array.size_push, h.size], fun k hk ho => ?_, fun k hk ho => ?_, fun k hk => ?_, ?_⟩
  · rcases Nat.lt_succ_iff_lt_or_eq.1 hk with hk | rfl
    · rcases h.opens k hk ho with hm | ⟨j, hkj, hj, hw, h₁, h₂⟩
      · left
        split
        · exact List.mem_cons_of_mem _ hm
        · exact hm
      · exact .inr ⟨j, hkj, Nat.lt_succ_of_lt hj, hw, by rw [h.getElem?_push_of_lt hk, h₁],
          by rw [h.getElem?_push_of_lt hj, h₂]⟩
    · obtain rfl : s = .loopOpen := Option.some.inj (hs.symm.trans ho)
      rw [if_pos rfl]
      exact .inl List.mem_cons_self
  · rcases Nat.lt_succ_iff_lt_or_eq.1 hk with hk | rfl
    · obtain ⟨j, hj, hw, h₁, h₂⟩ := h.closes k hk ho
      exact ⟨j, hj, hw, by rw [h.getElem?_push_of_lt hk, h₁],
        by rw [h.getElem?_push_of_lt (Nat.lt_trans hj hk), h₂]⟩
    · exact absurd (Option.some.inj (hs.symm.trans ho)) hc
  · split at hk
    · rcases List.mem_cons.1 hk with rfl | hk
      · refine ⟨Nat.lt_succ_self k, by rwa [‹s = _›] at hs, ?_⟩
        rw [Array.getElem?_push, if_pos h.size.symm]
      · exact hstack k hk
    · exact hstack k hk
  · split
    · exact List.pairwise_cons.2 ⟨fun k hk => (h.stacked k hk).1, h.sorted⟩
    · exact h.sorted

/-- A closing bracket takes the innermost open one from the stack. -/
theorem close (h : Pairing w n pairs (p :: stack)) (hs : w[n]? = some .loopClose) :
    Pairing w (n + 1) ((pairs.setIfInBounds p (some n)).push (some p)) stack := by
  obtain ⟨hpn, hpo, hpp⟩ := h.stacked p List.mem_cons_self
  obtain ⟨hlt, hsorted⟩ := List.pairwise_cons.1 h.sorted
  have hget (k : Nat) : ((pairs.setIfInBounds p (some n)).push (some p))[k]? =
      if k = n then some (some p) else if k = p then some (some n) else pairs[k]? := by
    rw [Array.getElem?_push, Array.size_setIfInBounds, h.size, Array.getElem?_setIfInBounds]
    by_cases hkp : k = p
    · subst hkp
      simp [h.size, hpn]
    · simp [hkp, Ne.symm hkp]
  refine ⟨by rw [Array.size_push, Array.size_setIfInBounds, h.size], fun k hk ho => ?_,
    fun k hk ho => ?_, fun k hk => ?_, hsorted⟩
  · have hkn : k ≠ n := by rintro rfl; rw [hs] at ho; cases ho
    by_cases hkp : k = p
    · refine .inr ⟨n, by omega, Nat.lt_succ_self n, hs, ?_, ?_⟩
      · rw [hget, if_neg hkn, if_pos hkp]
      · rw [hget, if_pos rfl, hkp]
    · rcases h.opens k (by omega) ho with hm | ⟨j, hkj, hj, hw, h₁, h₂⟩
      · exact .inl ((List.mem_cons.1 hm).resolve_left hkp)
      · have hjp : j ≠ p := by rintro rfl; rw [hw] at hpo; cases hpo
        refine .inr ⟨j, hkj, Nat.lt_succ_of_lt hj, hw, ?_, ?_⟩
        · rw [hget, if_neg hkn, if_neg hkp, h₁]
        · rw [hget, if_neg (Nat.ne_of_lt hj), if_neg hjp, h₂]
  · rcases Nat.lt_succ_iff_lt_or_eq.1 hk with hk | rfl
    · obtain ⟨j, hj, hw, h₁, h₂⟩ := h.closes k hk ho
      have hkp : k ≠ p := by rintro rfl; rw [ho] at hpo; cases hpo
      have hjp : j ≠ p := by rintro rfl; rw [hpp] at h₂; cases h₂
      refine ⟨j, hj, hw, ?_, ?_⟩
      · rw [hget, if_neg (Nat.ne_of_lt hk), if_neg hkp, h₁]
      · rw [hget, if_neg (by omega), if_neg hjp, h₂]
    · refine ⟨p, hpn, hpo, ?_, ?_⟩
      · rw [hget, if_pos rfl]
      · rw [hget, if_neg (by omega), if_pos rfl]
  · obtain ⟨hkn, ho, hp⟩ := h.stacked k (List.mem_cons_of_mem _ hk)
    have hkp := hlt k hk
    refine ⟨Nat.lt_succ_of_lt hkn, ho, ?_⟩
    rw [hget, if_neg (Nat.ne_of_lt hkn), if_neg (Nat.ne_of_lt hkp), hp]

end Pairing

/-! ### Balance -/

namespace Symbol

/-- No prefix closes more brackets than it opens, and in the end none is left open. -/
structure Balanced (w : List Symbol) : Prop where
  closed_le : ∀ v, v <+: w → v.count .loopClose ≤ v.count .loopOpen
  closed_eq : w.count .loopClose = w.count .loopOpen

/-- Pairing succeeds if the brackets are balanced together with the open ones on the stack. -/
theorem exists_pairFrom_iff (pairs : BracketPairs) (stack : List Nat) (n : Nat) (w : List Symbol) :
    (∃ pairs', pairFrom pairs stack n w = .ok pairs') ↔
      (∀ v, v <+: w → v.count .loopClose ≤ v.count .loopOpen + stack.length) ∧
        w.count .loopClose = w.count .loopOpen + stack.length := by
  induction w generalizing pairs stack n with
  | nil =>
    cases stack with
    | nil => simp [pairFrom]
    | cons p stack => simp [pairFrom, List.getLast?_cons]
  | cons s w ih =>
    have hcons (P : List Symbol → Prop) (h : P []) :
        (∀ v, v <+: s :: w → P v) ↔ ∀ v, v <+: w → P (s :: v) := by
      refine ⟨fun h' v hv => h' _ (List.prefix_cons_inj s |>.2 hv), fun h' v hv => ?_⟩
      rcases List.prefix_cons_iff.1 hv with rfl | ⟨u, rfl, hu⟩
      · exact h
      · exact h' u hu
    rw [hcons _ (by simp)]
    cases s with
    | act a => simpa [pairFrom] using ih (pairs.push none) stack (n + 1)
    | read => simpa [pairFrom] using ih (pairs.push none) stack (n + 1)
    | write => simpa [pairFrom] using ih (pairs.push none) stack (n + 1)
    | loopOpen =>
      rw [pairFrom, ih]
      simp [Nat.add_assoc, Nat.add_comm 1]
    | loopClose =>
      cases stack with
      | nil =>
        have hnot : ¬ ∀ v, v <+: w → (Symbol.loopClose :: v).count .loopClose ≤
            (Symbol.loopClose :: v).count .loopOpen + ([] : List Nat).length :=
          fun h => absurd (h [] List.nil_prefix) (by decide)
        simp only [pairFrom, reduceCtorEq, exists_false, hnot, false_and]
      | cons p stack =>
        rw [pairFrom, ih]
        simp [← Nat.add_assoc]

theorem balanced_iff {w : List Symbol} : Balanced w ↔ ∃ pairs, pairBrackets w = .ok pairs := by
  rw [pairBrackets, exists_pairFrom_iff]
  exact ⟨fun h => ⟨h.closed_le, h.closed_eq⟩, fun h => ⟨h.1, h.2⟩⟩

instance : DecidablePred Balanced := fun w =>
  decidable_of_iff ((pairBrackets w).isOk = true) (by
    rw [balanced_iff]
    cases pairBrackets w <;> simp [Except.isOk, Except.toBool])

end Symbol

end TapeFold
