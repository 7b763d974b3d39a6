import TapeFold.Proofs.Dispatch
import TapeFold.Proofs.Marking
import TapeFold.Proofs.Simulation

/-!
# Loops of one run, pass by pass

A loop that consists of one run and has no marks is gone through in laps of three steps, from the body
to the body again (`walk_lap`). A run that stays where it is and lowers its control cell by `f` is
gone through `n + 1` times if that cell holds `f * (n + 1)`, with the changes of the run made so often
(`walk_closed`).
-/

namespace TapeFold.Machine

variable {code : Array Instruction} {m : Machine} {k n : Nat} {loop body close : Instruction}
  {t : Tape}

section
variable (hs : SoleLoop code k loop body close) (hm : m.focus = .dispatch)
  (hl : m.maxSteps = none)
include hs hm hl

theorem step_body (hc : m.cursor = (k + 1 : Nat)) (h : runOn body m.tape = .ok () t) :
    step code m = .ok true { m with
      tape := t, cursor := (k + 2 : Nat), focus := .dispatch, steps := m.steps + 1 } :=
  At.step_run ⟨hm, hc, hs.body_at, hl⟩ hs.body_kind h

variable (hu : loop.Unmarked)
include hu

theorem step_enter (hc : m.cursor = k) (hp : 0 ≤ m.tape.pointer)
    (hv : m.tape.cell m.tape.pointer ≠ 0) : step code m = .ok true (m.looked (k + 1 : Nat)) :=
  At.step_open_of_ne ⟨hm, hc, hs.loop_at, hl⟩ hs.loop_kind hu hp hv

theorem walk_back (hc : m.cursor = (k + 2 : Nat)) (hp : 0 ≤ m.tape.pointer)
    (hv : m.tape.cell m.tape.pointer ≠ 0) :
    SilentWalk (step code) 2 m { m with
      tape := m.tape.grow m.tape.pointer.toNat
      cursor := (k + 1 : Nat), focus := .dispatch, steps := m.steps + 2 } := by
  have hclose := At.step_close_of_ne ⟨hm, hc, hs.close_at, hl⟩ hs.close_kind hs.close_target hp hv
  have hopen := step_enter (m := m.looked k) hs rfl hl hu rfl (by rwa [pointer_looked])
    (by rwa [pointer_looked, cell_looked])
  rw [looked_looked] at hopen
  exact .cons hclose rfl rfl (.cons hopen rfl rfl .refl)

/-- From the body, which leads to the tape `t`, to the body again. -/
theorem walk_lap (hc : m.cursor = (k + 1 : Nat)) (h : runOn body m.tape = .ok () t)
    (hp : 0 ≤ t.pointer) (hlt : t.pointer < t.size) (hv : t.cell t.pointer ≠ 0) :
    SilentWalk (step code) 3 m { m with
      tape := t, cursor := (k + 1 : Nat), focus := .dispatch, steps := m.steps + 3 } := by
  have hback := walk_back (m := { m with
    tape := t, cursor := (k + 2 : Nat), focus := .dispatch, steps := m.steps + 1 }) hs rfl hl hu rfl
    hp hv
  have hgrow : t.grow t.pointer.toNat = t := Tape.grow_of_lt (by omega)
  rw [hgrow] at hback
  exact .cons (step_body hs hm hl hc h) rfl rfl hback

end

theorem deltas_ne_nil {f : Int} (hdelta : body.deltaAt 0 = -f) (hf : 0 < f) : body.deltas ≠ [] := by
  intro h
  rw [Instruction.deltaAt_eq, h, rowAt_nil] at hdelta
  omega

/-- A loop of one run that stays where it is and lowers its control cell by `f`. -/
structure Countdown (code : Array Instruction) (k : Nat) (loop body close : Instruction) (f : Int) :
    Prop extends SoleLoop code k loop body close where
  unmarked : loop.Unmarked
  still : body.netShift = 0
  delta : body.deltaAt 0 = -f
  pos : 0 < f

namespace Countdown
variable {f : Int} (h : Countdown code k loop body close f) (hm : m.focus = .dispatch)
  (hl : m.maxSteps = none) (hp : 0 ≤ m.tape.pointer)
  (hv : m.tape.cell m.tape.pointer = f * (n + 1 : Nat))
include h hm hl hp hv

/-- From the body on, after `n + 1` passes the closing bracket is reached. -/
theorem walk_passes (hc : m.cursor = (k + 1 : Nat)) (hlt : m.tape.pointer < m.tape.size)
    (hok : m.tape.applyFault? body.deltas body.baseOffset body.minOffset = none) :
    SilentWalk (step code) (3 * n + 1) m { m with
      tape := m.tape.spread body.deltas (m.tape.pointer + body.baseOffset).toNat (n + 1 : Nat)
      cursor := (k + 2 : Nat), focus := .dispatch, steps := m.steps + (3 * n + 1) } := by
  have hd := deltas_ne_nil h.delta h.pos
  induction n generalizing m with
  | zero =>
    have hrun : runOn body m.tape = .ok () (m.tape.spread body.deltas _ 1) :=
      (runOn_of_still h.still).trans (Tape.apply_of_ne_nil 1 hd hok)
    exact .cons (step_body h.toSoleLoop hm hl hc hrun) rfl rfl .refl
  | succ n ih =>
    have hrun : runOn body m.tape = .ok () (m.tape.spread body.deltas _ 1) :=
      (runOn_of_still h.still).trans (Tape.apply_of_ne_nil 1 hd hok)
    have hbase := (Tape.applyFault?_eq_none_iff.1 hok).2 hd
    have hv₁ : (m.tape.spread body.deltas (m.tape.pointer + body.baseOffset).toNat 1).cell
        m.tape.pointer = f * (n + 1 : Nat) := by
      rw [Tape.cell_spread_row hd hbase, Int.sub_self, ← Instruction.deltaAt_eq, h.delta, hv,
        Int.natCast_succ (n + 1), Int.mul_add]
      omega
    have hlt₁ : m.tape.pointer <
        (m.tape.spread body.deltas (m.tape.pointer + body.baseOffset).toNat 1).size := by
      rw [Tape.size_spread hd]
      omega
    have hp₁ := Tape.pointer_spread (t := m.tape) body.deltas
      (m.tape.pointer + body.baseOffset).toNat 1
    generalize ht₁ : m.tape.spread body.deltas (m.tape.pointer + body.baseOffset).toNat 1 = t₁
      at hrun hv₁ hlt₁ hp₁
    have hne : f * ((n + 1 : Nat) : Int) ≠ 0 := Int.ne_of_gt (Int.mul_pos h.pos (by omega))
    have hlap := walk_lap h.toSoleLoop hm hl h.unmarked hc hrun (by rwa [hp₁]) (by rwa [hp₁])
      (by rwa [hp₁, hv₁])
    have hrest := ih (m := { m with
      tape := t₁, cursor := (k + 1 : Nat), focus := .dispatch, steps := m.steps + 3 }) rfl hl
      (by rwa [hp₁]) (by rwa [hp₁]) rfl (by rwa [hp₁])
      ((Tape.applyFault?_congr hp₁ _ _ _).trans hok)
    have htape : t₁.spread body.deltas (t₁.pointer + body.baseOffset).toNat (n + 1 : Nat) =
        m.tape.spread body.deltas (m.tape.pointer + body.baseOffset).toNat (n + 1 + 1 : Nat) := by
      rw [hp₁, ← ht₁, Tape.spread_spread hd]
      congr 1
      omega
    have hsteps : m.steps + 3 + (3 * n + 1) = m.steps + (3 * (n + 1) + 1) := by omega
    have hlen : 3 + (3 * n + 1) = 3 * (n + 1) + 1 := by omega
    rw [htape, hsteps] at hrest
    have hall := hlap.trans hrest
    rwa [hlen] at hall

/-- From the opening bracket on, the loop is gone through `n + 1` times. -/
theorem walk_closed (hc : m.cursor = k)
    (hok : m.tape.applyFault? body.deltas body.baseOffset body.minOffset = none) :
    SilentWalk (step code) (3 * n + 2) m { m with
      tape := (m.tape.grow m.tape.pointer.toNat).spread body.deltas
        (m.tape.pointer + body.baseOffset).toNat (n + 1 : Nat)
      cursor := (k + 2 : Nat), focus := .dispatch, steps := m.steps + (3 * n + 2) } := by
  have hne : m.tape.cell m.tape.pointer ≠ 0 := by
    rw [hv]
    exact Int.ne_of_gt (Int.mul_pos h.pos (by omega))
  have hopen := step_enter h.toSoleLoop hm hl h.unmarked hc hp hne
  have hlt : m.tape.pointer < (m.tape.grow m.tape.pointer.toNat).size := by
    rw [Tape.size_grow]
    omega
  have hpasses := h.walk_passes (m := m.looked (k + 1 : Nat)) rfl hl (by rwa [pointer_looked])
    (by rw [pointer_looked, cell_looked, hv]) rfl (by rw [pointer_looked]; exact hlt)
    ((Tape.applyFault?_congr (pointer_looked _ _) _ _ _).trans hok)
  rw [pointer_looked] at hpasses
  have hsteps : (m.looked (k + 1 : Nat)).steps + (3 * n + 1) = m.steps + (3 * n + 2) := by
    show m.steps + 1 + (3 * n + 1) = _
    omega
  rw [hsteps] at hpasses
  exact .cons hopen rfl rfl hpasses

end Countdown

end TapeFold.Machine
