import TapeFold.Proofs.Action
import TapeFold.Proofs.Simulation
import TapeFold.Proofs.Stretch

/-!
# The reference with unchecked moves

A run checks the cells that its acts change and not the cells that they only pass. `Act.glide` is an
act with a right move that goes on left of the first cell, `Reference.uncheckedStep` the step of a
reference with such acts. It differs from the reference just where a right move arrives left of the
first cell, on which the reference is stranded (`Reference.step_eq_or_stranded`).
-/

namespace TapeFold

/-- Moves the pointer right. The cell that it comes to is made addressable if there is one. -/
def Tape.slide : TapeAction Unit := fun t =>
  .ok () (if t.pointer + 1 < 0 then t.moved 1 else (t.moved 1).grow (t.pointer + 1).toNat)

theorem Tape.shift_one {t : Tape} (h : 0 ≤ t.pointer + 1) : Tape.shift 1 t = Tape.slide t := by
  rw [shift_of_pos Int.one_pos h, slide, if_neg (by omega)]

namespace Act

/-- Does an act, where a right move is not checked. -/
def glide : Act → TapeAction Unit
  | inc => Tape.add 0 1
  | dec => Tape.add 0 (-1)
  | left => Tape.shift (-1)
  | right => Tape.slide

/-- The tape `t'` is what gliding along `w` makes of `t`. -/
structure Glided (t : Tape) (w : List Act) (t' : Tape) : Prop where
  pointer : t'.pointer = t.pointer + movement w
  cell : ∀ k, 0 ≤ k → t'.cell k = t.cell k + change k t.pointer w
  size : t.size ≤ t'.size
  pointer_lt : t.pointer < t.size → t'.pointer < t'.size
  touched_lt : t.pointer < t.size → ∀ q ∈ touched t.pointer w, q < t'.size

theorem mem_touched_single {a : Act} {p q : Int} (h : q ∈ touched p [a]) : q = p := by
  unfold touched at h
  split at h
  · cases h
  · exact List.mem_singleton.1 h

theorem not_mem_touched_move {a : Act} {p q : Int} (h : a.amount = 0) : q ∉ touched p [a] := by
  rw [touched_cons_of_move h]
  exact List.not_mem_nil

variable {a : Act} {w : List Act} {t t' : Tape}

theorem glide_of_left (ha : a.amount ≠ 0) (hp : t.pointer < 0) :
    a.glide t = .error (.leftOfFirst t.pointer) t := by
  have h : t.pointer + 0 < 0 := by rwa [Int.add_zero]
  have hadd (d : Int) : Tape.add 0 d t = .error (.leftOfFirst t.pointer) t := by
    rw [Tape.add_of_neg h, Int.add_zero]
  cases a with
  | inc => exact hadd 1
  | dec => exact hadd (-1)
  | left => exact absurd rfl ha
  | right => exact absurd rfl ha

theorem glided_bump (hp : 0 ≤ t.pointer) (d : Int) (ha : a.amount = d) (ho : a.offset = 0) :
    Glided t [a] (t.bump (t.pointer + 0).toNat d) := by
  refine ⟨?_, fun k hk => ?_, ?_, fun h => ?_, fun h q hq => ?_⟩
  · rw [Tape.pointer_bump, movement, movement, ho, Int.add_zero, Int.add_zero]
  · rw [Tape.cell_bump, change, change, ha, Int.add_zero, Int.add_zero, Int.toNat_of_nonneg hp]
  · rw [Tape.size_bump]
    omega
  · rw [Tape.size_bump, Tape.pointer_bump]
    omega
  · rw [mem_touched_single hq, Tape.size_bump]
    omega

theorem glide_of_nonneg (h : a.amount ≠ 0 → 0 ≤ t.pointer) :
    ∃ t', a.glide t = .ok () t' ∧ Glided t [a] t' := by
  cases a with
  | inc =>
    have hp := h (by decide)
    exact ⟨_, Tape.add_of_nonneg (by rwa [Int.add_zero]) 1, glided_bump hp 1 rfl rfl⟩
  | dec =>
    have hp := h (by decide)
    exact ⟨_, Tape.add_of_nonneg (by rwa [Int.add_zero]) (-1), glided_bump hp (-1) rfl rfl⟩
  | left =>
    refine ⟨_, Tape.shift_of_nonpos (by decide), rfl, fun k _ => ?_, Nat.le_refl _, fun h => ?_,
      fun _ q hq => absurd hq (not_mem_touched_move rfl)⟩
    · simp [change, amount]
    · rw [Tape.pointer_moved, Tape.size_moved]
      omega
  | right =>
    refine ⟨_, rfl, ?_, fun k _ => ?_, ?_, fun h => ?_,
      fun _ q hq => absurd hq (not_mem_touched_move rfl)⟩
    · split
      · rfl
      · exact Tape.pointer_grow _ _
    · split <;> simp [change, amount]
    · split
      · exact Nat.le_refl _
      · rw [Tape.size_grow, Tape.size_moved]
        omega
    · split
      · rw [Tape.pointer_moved, Tape.size_moved]
        omega
      · rw [Tape.pointer_grow, Tape.pointer_moved, Tape.size_grow]
        omega

theorem Glided.nil : Glided t [] t :=
  ⟨(Int.add_zero _).symm, fun _ _ => (Int.add_zero _).symm, Nat.le_refl _, id, nofun⟩

theorem Glided.pointer_single (h : Glided t [a] t') : t'.pointer = t.pointer + a.offset := by
  rw [h.pointer, movement, movement, Int.add_zero]

theorem Glided.cons (h : Glided t [a] t') {t'' : Tape} (h' : Glided t' w t'') :
    Glided t (a :: w) t'' := by
  have hp := h.pointer_single
  have hsize := h'.size
  refine ⟨?_, fun k hk => ?_, Nat.le_trans h.size hsize,
    fun hlt => h'.pointer_lt (h.pointer_lt hlt), fun hlt q hq => ?_⟩
  · rw [h'.pointer, hp, movement, Int.add_assoc]
  · rw [h'.cell k hk, h.cell k hk, hp, change, change, change, Int.add_zero, Int.add_assoc]
  · have htail := h'.touched_lt (h.pointer_lt hlt)
    rw [hp] at htail
    by_cases ha : a.amount = 0
    · rw [touched_cons_of_move ha] at hq
      exact htail q hq
    · rw [touched_cons_of_amount ha, List.mem_cons] at hq
      rcases hq with rfl | hq
      · have := h.size
        omega
      · exact htail q hq

end Act

namespace Reference

open Machine

/-- Performs a symbol, where a right move is not checked. -/
def performUnchecked (pairs : BracketPairs) (position : Nat) : Symbol → Execution Unit
  | .act .right => onTape Tape.slide
  | symbol => perform pairs position symbol

/-- One counted step in which `perform` says what symbols do, if there is a symbol left. -/
def stepBy (perform : Nat → Symbol → Execution Unit) (symbols : Array Symbol) :
    Execution Bool := do
  let position := (← get).cursor.toNat
  match symbols[position]? with
  | none => return false
  | some symbol =>
    tick
    perform position symbol
    advance
    return true

def uncheckedStep (symbols : Array Symbol) (pairs : BracketPairs) : Execution Bool :=
  stepBy (performUnchecked pairs) symbols

/-- Runs the program in `text` on a new machine without checking right moves. -/
def runUnchecked (text : String) (patience : Nat) (m : Machine) : Except BracketError Ending :=
  let symbols := Symbol.ofText text
  (pairBrackets symbols).map fun pairs =>
    (m.iterate (uncheckedStep symbols.toArray pairs) (m.stepBound?.getD patience)).close

/-- The reference ends with `e` at `m`, on a right move that arrives left of the first cell. -/
structure Stranded (symbols : Array Symbol) (m : Machine) (e : Ending) : Prop where
  right : symbols[e.machine.cursor.toNat]? = some (.act .right)
  halt : ∃ i, e.halt = .faulted (.underflow i)
  steps : e.machine.steps = m.steps + 1
  output : e.machine.output = m.output
  input : e.machine.input = m.input

variable {perform' : Nat → Symbol → Execution Unit} {symbols : Array Symbol} {pairs : BracketPairs}
  {m m' : Machine} {s : Symbol} {n : Nat} {e : Ending}

theorem step_eq_stepBy : step symbols pairs = stepBy (perform pairs) symbols := rfl

theorem stepBy_of_none (h : symbols[m.cursor.toNat]? = none) :
    stepBy perform' symbols m = .ok false m := by
  refine (bind_of_ok rfl).trans ?_
  rw [h]
  rfl

theorem stepBy_of_some (h : symbols[m.cursor.toNat]? = some s) :
    stepBy perform' symbols m = (do
      tick
      perform' m.cursor.toNat s
      advance
      return true : Execution Bool) m := by
  refine (bind_of_ok rfl).trans ?_
  rw [h]

theorem stepBy_of_ok (h : symbols[m.cursor.toNat]? = some s) (hl : m.maxSteps = none)
    (hp : perform' m.cursor.toNat s m.ticked = .ok () m') :
    stepBy perform' symbols m = .ok true { m' with cursor := m'.cursor + 1 } :=
  (stepBy_of_some h).trans ((bind_of_ok (tick_of_unlimited hl)).trans (bind_of_ok hp))

theorem stepBy_of_error {f : Fault} (h : symbols[m.cursor.toNat]? = some s)
    (hl : m.maxSteps = none) (hp : perform' m.cursor.toNat s m.ticked = .error f m') :
    stepBy perform' symbols m = .error f m' :=
  (stepBy_of_some h).trans ((bind_of_ok (tick_of_unlimited hl)).trans (bind_of_error hp))

theorem performUnchecked_of_ne {position : Nat} (h : s ≠ .act .right) :
    performUnchecked pairs position s = perform pairs position s := by
  unfold performUnchecked
  split
  · exact absurd rfl h
  · rfl

/-- Where the two references part, the one that checks is stranded. -/
theorem step_eq_or_stranded (symbols : Array Symbol) (pairs : BracketPairs) (m : Machine)
    (hl : m.maxSteps = none) :
    step symbols pairs m = uncheckedStep symbols pairs m ∨
      ∃ e, Stops (step symbols pairs) m e ∧ Stranded symbols m e := by
  rw [step_eq_stepBy, uncheckedStep]
  match h : symbols[m.cursor.toNat]? with
  | none => exact .inl ((stepBy_of_none h).trans (stepBy_of_none h).symm)
  | some s =>
    by_cases hs : s = .act .right
    · subst hs
      by_cases hp : 0 ≤ m.tape.pointer + 1
      · left
        have hsame : onTape (Tape.shift 1) m.ticked = onTape Tape.slide m.ticked := by
          simp only [onTape, Tape.shift_one (t := m.ticked.tape) hp]
        cases ht : onTape Tape.slide m.ticked with
        | ok u m₁ =>
          exact (stepBy_of_ok h hl (hsame.trans ht)).trans (stepBy_of_ok h hl ht).symm
        | error f m₁ =>
          exact (stepBy_of_error h hl (hsame.trans ht)).trans (stepBy_of_error h hl ht).symm
      · right
        have hshift := Tape.shift_of_left (t := m.ticked.tape) Int.one_pos (Int.not_le.1 hp)
        exact ⟨_, .faulted (stepBy_of_error h hl (onTape_of_error hshift)), h, ⟨_, rfl⟩, rfl, rfl,
          rfl⟩
    · left
      rw [stepBy_of_some h, stepBy_of_some h, performUnchecked_of_ne hs]

/-! ### Along a stretch -/

/-- From position `n` on stand the acts `w`. -/
def Spells (symbols : Array Symbol) : (n : Nat) → List Act → Prop
  | _, [] => True
  | n, a :: w => symbols[n]? = some (.act a) ∧ Spells symbols (n + 1) w

theorem performUnchecked_act (a : Act) (position : Nat) :
    performUnchecked pairs position (.act a) = onTape a.glide := by
  cases a <;> rfl

theorem uncheckedStep_act {a : Act} {t : Tape} (hs : symbols[n]? = some (.act a))
    (hc : m.cursor = n) (hl : m.maxSteps = none) (h : a.glide m.tape = .ok () t) :
    uncheckedStep symbols pairs m =
      .ok true { m with tape := t, steps := m.steps + 1, cursor := m.cursor + 1 } := by
  have hp : performUnchecked pairs m.cursor.toNat (.act a) m.ticked =
      .ok () { m.ticked with tape := t } := by
    rw [performUnchecked_act]
    exact onTape_of_ok h
  exact stepBy_of_ok (by rw [hc]; exact hs) hl hp

/-- A stretch that changes no cell left of the first one is walked along quietly. -/
theorem walk_of_nonneg {w : List Act} (hs : Spells symbols n w) (hc : m.cursor = n)
    (hl : m.maxSteps = none) (h : ∀ q ∈ Act.touched m.tape.pointer w, 0 ≤ q) :
    ∃ t, Act.Glided m.tape w t ∧ Quiet (uncheckedStep symbols pairs) w.length m ∧
      Walk (uncheckedStep symbols pairs) w.length m
        { m with tape := t, steps := m.steps + w.length, cursor := m.cursor + w.length } := by
  induction w generalizing n m with
  | nil =>
    refine ⟨m.tape, Act.Glided.nil, Quiet.zero, ?_⟩
    have hm : m = { m with steps := m.steps + 0, cursor := m.cursor + (0 : Nat) } := by simp
    exact hm ▸ Walk.refl
  | cons a w ih =>
    have ha : a.amount ≠ 0 → 0 ≤ m.tape.pointer := fun hne => by
      rw [Act.touched_cons_of_amount hne] at h
      exact h _ List.mem_cons_self
    obtain ⟨t₁, h₁, hg⟩ := Act.glide_of_nonneg ha
    have hstep : uncheckedStep symbols pairs m = _ := uncheckedStep_act hs.1 hc hl h₁
    obtain ⟨t, hg', hq, hw⟩ := ih (n := n + 1)
      (m := { m with tape := t₁, steps := m.steps + 1, cursor := m.cursor + 1 }) hs.2
      (by simp [hc]) hl fun q hq => h q (by
        rw [hg.pointer_single] at hq
        by_cases hne : a.amount = 0
        · rwa [Act.touched_cons_of_move hne]
        · rw [Act.touched_cons_of_amount hne]
          exact List.mem_cons_of_mem _ hq)
    refine ⟨t, hg.cons hg', hq.cons hstep rfl rfl, .cons hstep ?_⟩
    simpa [Nat.add_comm, Nat.add_left_comm, Int.add_comm, Int.add_left_comm] using hw

/-- A stretch that changes a cell left of the first one ends the run. -/
theorem stops_of_left (pairs : BracketPairs) {w : List Act} (hs : Spells symbols n w) (hc : m.cursor = n)
    (hl : m.maxSteps = none) (h : ∃ q ∈ Act.touched m.tape.pointer w, q < 0) :
    ∃ k m' e i, Walk (uncheckedStep symbols pairs) k m m' ∧
      Quiet (uncheckedStep symbols pairs) k m ∧ Stops (uncheckedStep symbols pairs) m' e ∧
      e.halt = .faulted (.underflow i) ∧ e.machine.output = m.output ∧
      e.machine.input = m.input ∧ m.steps < e.machine.steps := by
  induction w generalizing n m with
  | nil => simp [Act.touched] at h
  | cons a w ih =>
    by_cases ha : a.amount ≠ 0 ∧ m.tape.pointer < 0
    · have hglide := onTape_of_error (m := m.ticked) (Act.glide_of_left ha.1 ha.2)
      rw [show onTape a.glide = performUnchecked pairs m.cursor.toNat (.act a) from
        (performUnchecked_act a _).symm] at hglide
      exact ⟨0, m, _, _, .refl, Quiet.zero,
        .faulted (stepBy_of_error (by rw [hc]; exact hs.1) hl hglide), rfl, rfl, rfl,
        Nat.lt_succ_self _⟩
    · obtain ⟨t₁, h₁, hg⟩ := Act.glide_of_nonneg (a := a) (t := m.tape) (by omega)
      have hstep : uncheckedStep symbols pairs m = _ := uncheckedStep_act hs.1 hc hl h₁
      obtain ⟨k, m', e, i, hw, hq, hst, hh, ho, hi, hlt⟩ := ih (n := n + 1)
        (m := { m with tape := t₁, steps := m.steps + 1, cursor := m.cursor + 1 }) hs.2
        (by simp [hc]) hl (by
          obtain ⟨q, hq, hneg⟩ := h
          refine ⟨q, ?_, hneg⟩
          rw [hg.pointer_single]
          by_cases hne : a.amount = 0
          · rwa [Act.touched_cons_of_move hne] at hq
          · rw [Act.touched_cons_of_amount hne, List.mem_cons] at hq
            exact hq.resolve_left (by omega))
      exact ⟨k + 1, m', e, i, .cons hstep hw, hq.cons hstep rfl rfl, hst, hh, ho, hi,
        Nat.lt_of_succ_lt hlt⟩

end Reference

end TapeFold
