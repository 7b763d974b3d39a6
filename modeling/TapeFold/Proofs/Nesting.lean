import TapeFold.Proofs.Pairing

/-!
# How brackets nest

`Symbol.depth w n` is the number of brackets that the first `n` of the symbols `w` leave open, and
`Symbol.Closes w i j` says that the bracket at `j` closes the one at `i`: what stands between them is
balanced. The reference pairs just these (`Symbol.Nesting.joins_iff`), and where it fails it names the
first fault of the text (`Symbol.pairBrackets_eq_error_iff`). Pairs are nested or disjoint
(`Symbol.Closes.nested`).
-/

namespace TapeFold

/-- The brackets at `i` and `j` are partners. -/
def BracketPairs.Joins (pairs : BracketPairs) (i j : Nat) : Prop :=
  pairs[i]? = some (some j) ∧ pairs[j]? = some (some i)

namespace Symbol

/-- How many brackets the first `n` of the symbols `w` leave open. It is negative if they close more
than they open. -/
def depth (w : List Symbol) (n : Nat) : Int :=
  (w.take n).count .loopOpen - (w.take n).count .loopClose

/-- The bracket at `j` closes the one at `i`. -/
structure Closes (w : List Symbol) (i j : Nat) : Prop where
  lt : i < j
  opens : w[i]? = some .loopOpen
  closes : w[j]? = some .loopClose
  between : Balanced ((w.take j).drop (i + 1))

/-- The opening bracket at `i` is never closed. -/
structure Unclosed (w : List Symbol) (i : Nat) : Prop where
  opens : w[i]? = some .loopOpen
  never : ∀ j, ¬ Closes w i j

/-- At the closing bracket at `k`, and not before, more brackets have been closed than opened. -/
structure FirstUnopened (w : List Symbol) (k : Nat) : Prop where
  closes : w[k]? = some .loopClose
  exceeds : (w.take (k + 1)).count .loopOpen < (w.take (k + 1)).count .loopClose
  first : ∀ n, n ≤ k → (w.take n).count .loopClose ≤ (w.take n).count .loopOpen

/-- What is wrong with the brackets of `w`: the first closing bracket that closes too much or, if
there is none, the leftmost opening bracket that is never closed. -/
inductive Faulty (w : List Symbol) : BracketError → Prop
  | unopened {k : Nat} (h : FirstUnopened w k) : Faulty w (.unopened (some (k : Int)))
  | unclosed {k : Nat} (hno : ∀ j, ¬ FirstUnopened w j) (h : Unclosed w k)
      (hleft : ∀ i, i < k → ¬ Unclosed w i) : Faulty w (.unclosed k)

variable {w : List Symbol} {i j k n p : Nat} {s : Symbol}

/-! ### Depth -/

@[simp] theorem depth_zero (w : List Symbol) : depth w 0 = 0 := by
  simp [depth]

theorem depth_succ (h : w[n]? = some s) :
    depth w (n + 1) =
      depth w n + (if s = .loopOpen then 1 else 0) - (if s = .loopClose then 1 else 0) := by
  have ht : w.take (n + 1) = w.take n ++ [s] := by rw [List.take_add_one, h]; rfl
  rw [depth, depth, ht, List.count_append, List.count_append]
  cases s <;> simp <;> omega

theorem depth_of_length_le (h : w.length ≤ n) : depth w n = depth w w.length := by
  rw [depth, depth, List.take_of_length_le h, List.take_length]

theorem depth_nonneg_iff :
    0 ≤ depth w n ↔ (w.take n).count .loopClose ≤ (w.take n).count .loopOpen := by
  unfold depth
  omega

theorem count_slice (s : Symbol) (hik : i ≤ k) :
    ((w.take k).drop i).count s + (w.take i).count s = (w.take k).count s := by
  have h := congrArg (List.count s) (List.take_append_drop i (w.take k))
  rw [List.count_append, List.take_take, Nat.min_eq_left hik] at h
  omega

/-- A part of the symbols is balanced if the depth is the same at both its ends and no less
between. -/
theorem balanced_slice_iff (hij : i ≤ j) (hj : j ≤ w.length) :
    Balanced ((w.take j).drop i) ↔
      (∀ k, i ≤ k → k ≤ j → depth w i ≤ depth w k) ∧ depth w j = depth w i := by
  have hcount (k : Nat) (hik : i ≤ k) :
      ((w.take k).drop i).count .loopClose ≤ ((w.take k).drop i).count .loopOpen ↔
        depth w i ≤ depth w k := by
    have h₁ := count_slice (w := w) .loopOpen hik
    have h₂ := count_slice (w := w) .loopClose hik
    unfold depth
    omega
  constructor
  · intro h
    refine ⟨fun k hik hkj => (hcount k hik).1 (h.closed_le _ ?_), ?_⟩
    · have hk : (w.take k).drop i = ((w.take j).drop i).take (k - i) := by
        rw [List.take_drop, List.take_take, Nat.add_sub_cancel' hik, Nat.min_eq_left hkj]
      rw [hk]
      exact List.take_prefix _ _
    · have h₁ := count_slice (w := w) .loopOpen hij
      have h₂ := count_slice (w := w) .loopClose hij
      have h₃ := h.closed_eq
      unfold depth
      omega
  · rintro ⟨hle, heq⟩
    refine ⟨fun v hv => ?_, ?_⟩
    · have hlen := hv.length_le
      rw [List.length_drop, List.length_take] at hlen
      have hv' : v = (w.take (i + v.length)).drop i := by
        have ht := List.prefix_iff_eq_take.1 hv
        rwa [List.take_drop, List.take_take, Nat.min_eq_left (by omega)] at ht
      rw [hv']
      exact (hcount _ (by omega)).2 (hle _ (by omega) (by omega))
    · have h₁ := count_slice (w := w) .loopOpen hij
      have h₂ := count_slice (w := w) .loopClose hij
      unfold depth at heq
      omega

theorem balanced_iff_depth :
    Balanced w ↔ (∀ k, 0 ≤ depth w k) ∧ depth w w.length = 0 := by
  have h := balanced_slice_iff (w := w) (Nat.zero_le _) (Nat.le_refl _)
  rw [List.take_length, List.drop_zero, depth_zero] at h
  rw [h]
  refine and_congr_left fun _ => ⟨fun hk k => ?_, fun hk k _ _ => hk k⟩
  rcases Nat.le_total k w.length with hle | hle
  · exact hk k (Nat.zero_le k) hle
  · rw [depth_of_length_le hle]
    exact hk _ (Nat.zero_le _) (Nat.le_refl _)

/-! ### Brackets that close one another -/

theorem closes_iff :
    Closes w i j ↔ i < j ∧ w[i]? = some .loopOpen ∧ w[j]? = some .loopClose ∧
      (∀ k, i < k → k ≤ j → depth w (i + 1) ≤ depth w k) ∧ depth w j = depth w (i + 1) := by
  constructor
  · rintro ⟨hlt, ho, hc, hb⟩
    have hj := (List.getElem?_eq_some_iff.1 hc).1
    exact ⟨hlt, ho, hc, (balanced_slice_iff hlt (Nat.le_of_lt hj)).1 hb⟩
  · rintro ⟨hlt, ho, hc, hb⟩
    have hj := (List.getElem?_eq_some_iff.1 hc).1
    exact ⟨hlt, ho, hc, (balanced_slice_iff hlt (Nat.le_of_lt hj)).2 hb⟩

/-- Two pairs of brackets are nested or disjoint. -/
theorem Closes.nested {i' j' : Nat} (h : Closes w i j) (h' : Closes w i' j') (hi : i < i') :
    j < i' ∨ j' < j := by
  obtain ⟨hlt, -, hc, hle, heq⟩ := closes_iff.1 h
  obtain ⟨hlt', ho', hc', hle', heq'⟩ := closes_iff.1 h'
  by_contra hnot
  have hne : i' ≠ j := by
    rintro rfl
    rw [hc] at ho'
    cases ho'
  have h₁ := depth_succ ho'
  have h₂ := depth_succ hc
  have h₃ := hle i' hi (by omega)
  -- the outer bracket would be closed inside the inner pair, or with it
  rcases Nat.lt_or_ge j j' with hjj | hjj
  · have h₄ := hle' (j + 1) (by omega) hjj
    simp at h₁ h₂
    omega
  · obtain rfl : j = j' := by omega
    simp at h₁
    omega

theorem Closes.right_unique {j' : Nat} (h : Closes w i j) (h' : Closes w i j') : j = j' := by
  obtain ⟨hlt, -, hc, hle, heq⟩ := closes_iff.1 h
  obtain ⟨hlt', -, hc', hle', heq'⟩ := closes_iff.1 h'
  have h₁ := depth_succ hc
  have h₂ := depth_succ hc'
  simp at h₁ h₂
  rcases Nat.lt_trichotomy j j' with hjj | rfl | hjj
  · have := hle' (j + 1) (by omega) hjj
    omega
  · rfl
  · have := hle (j' + 1) (by omega) hjj
    omega

/-! ### Faults -/

theorem firstUnopened_iff :
    FirstUnopened w k ↔ w[k]? = some .loopClose ∧ depth w (k + 1) < 0 ∧
      ∀ n, n ≤ k → 0 ≤ depth w n := by
  constructor
  · rintro ⟨hc, he, hf⟩
    refine ⟨hc, ?_, fun n hn => depth_nonneg_iff.2 (hf n hn)⟩
    have := mt depth_nonneg_iff.1 (Nat.not_le.2 he)
    omega
  · rintro ⟨hc, he, hf⟩
    refine ⟨hc, ?_, fun n hn => depth_nonneg_iff.1 (hf n hn)⟩
    have := mt depth_nonneg_iff.2 (Int.not_le.2 he)
    omega

theorem FirstUnopened.unique {k' : Nat} (h : FirstUnopened w k) (h' : FirstUnopened w k') :
    k = k' := by
  have h₁ := h.exceeds
  have h₂ := h'.exceeds
  rcases Nat.lt_trichotomy k k' with hlt | rfl | hlt
  · have := h'.first (k + 1) hlt
    omega
  · rfl
  · have := h.first (k' + 1) hlt
    omega

/-- Only one thing is named as wrong. -/
theorem Faulty.unique {e e' : BracketError} (h : Faulty w e) (h' : Faulty w e') : e = e' := by
  cases h with
  | unopened h =>
    cases h' with
    | unopened h' => rw [h.unique h']
    | unclosed hno => exact absurd h (hno _)
  | @unclosed k hno h hleft =>
    cases h' with
    | unopened h' => exact absurd h' (hno _)
    | @unclosed k' _ h' hleft' =>
      rcases Nat.lt_trichotomy k k' with hlt | rfl | hlt
      · exact absurd h (hleft' k hlt)
      · rfl
      · exact absurd h' (hleft k' hlt)

/-! ### Pairing brackets as they nest -/

/-- After `n` of the symbols `w` the brackets on the stack are open, with the innermost first, and
those that are paired close one another. -/
structure Nesting (w : List Symbol) (n : Nat) (pairs : BracketPairs) (stack : List Nat) : Prop
    extends Pairing w n pairs stack where
  nonneg : ∀ k, k ≤ n → 0 ≤ depth w k
  depth_eq : depth w n = stack.length
  open_since : ∀ (c p : Nat), stack[c]? = some p →
    depth w (p + 1) = depth w n - c ∧ ∀ k, p < k → k ≤ n → depth w (p + 1) ≤ depth w k
  paired : ∀ i j, pairs[i]? = some (some j) → Closes w i j ∨ Closes w j i

/-- The pairs of balanced symbols, or what is wrong with them. -/
inductive Checked (w : List Symbol) : Except BracketError BracketPairs → Prop
  | paired {pairs : BracketPairs} (h : Nesting w w.length pairs []) : Checked w (.ok pairs)
  | faulty {e : BracketError} (h : Faulty w e) : Checked w (.error e)

section
variable {pairs : BracketPairs} {stack : List Nat} {rest : List Symbol}

theorem Nesting.empty (w : List Symbol) : Nesting w 0 #[] [] := by
  refine ⟨.empty w, ?_, by simp, ?_, ?_⟩
  · intro k hk
    obtain rfl : k = 0 := Nat.le_zero.1 hk
    simp
  · intro c p h
    simp at h
  · intro i j h
    simp at h

theorem Nesting.push (h : Nesting w n pairs stack) (hs : w[n]? = some s) (hc : s ≠ .loopClose) :
    Nesting w (n + 1) (pairs.push none) (if s = .loopOpen then n :: stack else stack) := by
  have hd := depth_succ hs
  rw [if_neg hc, Int.sub_zero] at hd
  have hn := h.nonneg n (Nat.le_refl n)
  have hold (c p : Nat) (hp : stack[c]? = some p) :
      depth w (p + 1) = depth w n - c ∧
        ∀ k, p < k → k ≤ n + 1 → depth w (p + 1) ≤ depth w k := by
    obtain ⟨heq, hle⟩ := h.open_since c p hp
    refine ⟨heq, fun k hpk hk => ?_⟩
    rcases Nat.lt_or_eq_of_le hk with hk | rfl
    · exact hle k hpk (Nat.le_of_lt_succ hk)
    · have := hle n
      split at hd <;> omega
  refine ⟨h.toPairing.push hs hc, ?_, ?_, ?_, ?_⟩
  · intro k hk
    rcases Nat.lt_or_eq_of_le hk with hk | rfl
    · exact h.nonneg k (Nat.le_of_lt_succ hk)
    · split at hd <;> omega
  · rw [hd, h.depth_eq]
    split <;> simp
  · intro c p hp
    split at hp
    · rw [if_pos ‹_›] at hd
      cases c with
      | zero =>
        obtain rfl : n = p := by simpa using hp
        exact ⟨by omega, fun k hk hk' => by
          obtain rfl : k = n + 1 := by omega
          exact Int.le_refl _⟩
      | succ c =>
        obtain ⟨heq, hle⟩ := hold c p (by simpa using hp)
        exact ⟨by omega, hle⟩
    · rw [if_neg ‹_›] at hd
      obtain ⟨heq, hle⟩ := hold c p hp
      exact ⟨by omega, hle⟩
  · intro i j hp
    rw [Array.getElem?_push] at hp
    split at hp
    · simp at hp
    · exact h.paired i j hp

/-- The innermost open bracket is closed by the next one. -/
theorem Nesting.closes_top (h : Nesting w n pairs (p :: stack)) (hs : w[n]? = some .loopClose) :
    Closes w p n := by
  obtain ⟨hpn, hpo, -⟩ := h.stacked p List.mem_cons_self
  obtain ⟨heq, hle⟩ := h.open_since 0 p rfl
  exact closes_iff.2 ⟨hpn, hpo, hs, hle, by omega⟩

theorem Nesting.close (h : Nesting w n pairs (p :: stack)) (hs : w[n]? = some .loopClose) :
    Nesting w (n + 1) ((pairs.setIfInBounds p (some n)).push (some p)) stack := by
  have hd := depth_succ hs
  have hn := h.depth_eq
  simp at hd hn
  have hcloses := h.closes_top hs
  refine ⟨h.toPairing.close hs, ?_, by omega, ?_, ?_⟩
  · intro k hk
    rcases Nat.lt_or_eq_of_le hk with hk | rfl
    · exact h.nonneg k (Nat.le_of_lt_succ hk)
    · omega
  · intro c q hq
    obtain ⟨heq, hle⟩ := h.open_since (c + 1) q hq
    refine ⟨by omega, fun k hqk hk => ?_⟩
    rcases Nat.lt_or_eq_of_le hk with hk | rfl
    · exact hle k hqk (Nat.le_of_lt_succ hk)
    · omega
  · intro i j hp
    rw [Array.getElem?_push, Array.size_setIfInBounds, Array.getElem?_setIfInBounds, h.size] at hp
    have hpn := hcloses.lt
    split at hp
    · obtain rfl : p = j := by simpa using hp
      rw [‹i = n›]
      exact .inr hcloses
    · split at hp
      · obtain rfl : n = j := by simpa [hpn] using hp
        rw [← ‹p = i›]
        exact .inl hcloses
      · exact h.paired i j hp

theorem Nesting.closes_of_lt (h : Nesting w n pairs stack) (hp : pairs[i]? = some (some j))
    (hij : i < j) : Closes w i j := by
  rcases h.paired i j hp with hc | hc
  · exact hc
  · exact absurd hc.lt (Nat.not_lt.2 (Nat.le_of_lt hij))

/-- The bracket at the bottom of the stack is the leftmost that is never closed. -/
theorem Nesting.faulty (h : Nesting w w.length pairs stack) (hp : stack.getLast? = some p) :
    Faulty w (.unclosed p) := by
  obtain ⟨c, hc⟩ := List.mem_iff_getElem?.1 (List.mem_of_getLast? hp)
  obtain ⟨-, hpo, -⟩ := h.stacked p (List.mem_of_getLast? hp)
  obtain ⟨-, hle⟩ := h.open_since c p hc
  refine .unclosed ?_ ⟨hpo, ?_⟩ ?_
  · intro j hj
    obtain ⟨hjc, hneg, -⟩ := firstUnopened_iff.1 hj
    have hlt := (List.getElem?_eq_some_iff.1 hjc).1
    have := h.nonneg (j + 1) hlt
    omega
  · intro j hj
    obtain ⟨hlt, -, hjc, -, heq⟩ := closes_iff.1 hj
    have hd := depth_succ hjc
    have hjl := (List.getElem?_eq_some_iff.1 hjc).1
    have := hle (j + 1) (by omega) hjl
    simp at hd
    omega
  · intro i hi hu
    have hil := (List.getElem?_eq_some_iff.1 hu.opens).1
    rcases h.opens i hil hu.opens with hm | ⟨j, hij, -, -, hpair, -⟩
    · -- the stack holds no bracket left of its last
      obtain ⟨init, hinit⟩ := List.getLast?_eq_some_iff.1 hp
      have hs := h.sorted
      rw [hinit] at hm hs
      rcases List.mem_append.1 hm with hm | hm
      · have := (List.pairwise_append.1 hs).2.2 i hm p (by simp)
        omega
      · have : i = p := by simpa using hm
        omega
    · exact hu.never j (h.closes_of_lt hpair hij)

theorem checked_of_nesting (h : Nesting w n pairs stack) (hr : w.drop n = rest)
    (hn : n ≤ w.length) : Checked w (pairFrom pairs stack n rest) := by
  induction rest generalizing n pairs stack with
  | nil =>
    obtain rfl : n = w.length := Nat.le_antisymm hn (List.drop_eq_nil_iff.1 hr)
    rw [pairFrom]
    cases hlast : stack.getLast? with
    | none =>
      obtain rfl := List.getLast?_eq_none_iff.1 hlast
      exact .paired h
    | some p => exact .faulty (h.faulty hlast)
  | cons s rest ih =>
    have hs : w[n]? = some s := by
      have h₀ : (w.drop n)[0]? = w[n + 0]? := List.getElem?_drop
      rw [hr] at h₀
      exact h₀.symm
    have hr' : w.drop (n + 1) = rest := by rw [← List.tail_drop, hr, List.tail_cons]
    have hn' : n + 1 ≤ w.length := (List.getElem?_eq_some_iff.1 hs).1
    cases s with
    | act a => exact ih (h.push hs (by simp)) hr' hn'
    | read => exact ih (h.push hs (by simp)) hr' hn'
    | write => exact ih (h.push hs (by simp)) hr' hn'
    | loopOpen => exact ih (h.push hs (by simp)) hr' hn'
    | loopClose =>
      cases stack with
      | nil =>
        have hd := depth_succ hs
        have h₀ := h.depth_eq
        simp at hd h₀
        exact .faulty (.unopened (firstUnopened_iff.2 ⟨hs, by omega, h.nonneg⟩))
      | cons p stack => exact ih (h.close hs) hr' hn'

theorem checked_pairBrackets (w : List Symbol) : Checked w (pairBrackets w) :=
  checked_of_nesting (.empty w) rfl (Nat.zero_le _)

theorem nesting_of_pairBrackets (h : pairBrackets w = .ok pairs) : Nesting w w.length pairs [] := by
  have hc := checked_pairBrackets w
  rw [h] at hc
  cases hc with
  | paired h => exact h

/-- Balanced brackets have no fault. -/
theorem Faulty.not_balanced {e : BracketError} (h : Faulty w e) : ¬ Balanced w := by
  intro hb
  cases h with
  | unopened h =>
    have hneg := (firstUnopened_iff.1 h).2.1
    exact absurd ((balanced_iff_depth.1 hb).1 _) (Int.not_le.2 hneg)
  | unclosed hno h hleft =>
    obtain ⟨pairs, hpairs⟩ := balanced_iff.1 hb
    have hn := nesting_of_pairBrackets hpairs
    have hlt := (List.getElem?_eq_some_iff.1 h.opens).1
    rcases hn.opens _ hlt h.opens with hm | ⟨j, hij, -, -, hpair, -⟩
    · simp at hm
    · exact h.never j (hn.closes_of_lt hpair hij)

theorem pairBrackets_eq_error_iff {e : BracketError} :
    pairBrackets w = .error e ↔ Faulty w e := by
  have hc := checked_pairBrackets w
  constructor
  · intro h
    rw [h] at hc
    cases hc with
    | faulty h => exact h
  · intro h
    cases hp : pairBrackets w with
    | ok pairs => exact absurd (balanced_iff.2 ⟨pairs, hp⟩) h.not_balanced
    | error e' =>
      rw [hp] at hc
      cases hc with
      | faulty h' => rw [h.unique h']

theorem Nesting.joins_of_closes (h : Nesting w w.length pairs []) (hc : Closes w i j) :
    pairs.Joins i j := by
  have hlt := (List.getElem?_eq_some_iff.1 hc.opens).1
  rcases h.opens i hlt hc.opens with hm | ⟨j', hij, -, -, h₁, h₂⟩
  · simp at hm
  · obtain rfl := hc.right_unique (h.closes_of_lt h₁ hij)
    exact ⟨h₁, h₂⟩

/-- Brackets are paired just if one closes the other. -/
theorem Nesting.joins_iff (h : Nesting w w.length pairs []) :
    pairs.Joins i j ↔ Closes w i j ∨ Closes w j i := by
  constructor
  · rintro ⟨h₁, -⟩
    exact h.paired i j h₁
  · rintro (hc | hc)
    · exact h.joins_of_closes hc
    · exact (h.joins_of_closes hc).symm

end

end Symbol

end TapeFold
