import TapeFold.Proofs.Runs

/-!
# Runs in lockstep

Two machines that programs cannot tell apart go the same way step by step as long as their clocks
agree (`Lockstep`). So their runs end in the same way and on machines that are still related, and that
goes for compiled code (`Lockstep.run`) and for the reference (`Lockstep.reference`).
-/

namespace TapeFold

/-- Two endings of the same kind, on related machines. -/
structure Ending.Match (R : Machine → Machine → Prop) (e e' : Ending) : Prop where
  halt : e.halt = e'.halt
  machine : R e.machine e'.machine

namespace Machine

/-- The clocks of related machines agree, and counting a step keeps them related. -/
structure Timed (R : Machine → Machine → Prop) : Prop where
  steps : ∀ {m c}, R m c → m.steps = c.steps
  maxSteps : ∀ {m c}, R m c → m.maxSteps = c.maxSteps
  ticked : ∀ {m c}, R m c → R m.ticked c.ticked

/-- Programs cannot tell related machines apart, and their clocks agree. Counting a step and ending a
run keeps them related. -/
structure Lockstep (R : Machine → Machine → Prop) : Prop extends Congruence R, Timed R where
  flushed : ∀ {m c}, R m c →
    R { m with output := m.output.flush } { c with output := c.output.flush }

variable {R : Machine → Machine → Prop} {m c : Machine} {e e' : Ending}

theorem respects_due {ready : Execution Bool} (hr : Respects R ready) (ht : Respects R tick) :
    Respects R (due ready) := by
  refine hr.bind fun b => ?_
  split
  · exact ht.bind fun _ => respects_pure true
  · exact respects_pure false

theorem respects_counted {ready : Execution Bool} {act : Execution Unit} (hr : Respects R ready)
    (ht : Respects R tick) (ha : Respects R act) : Respects R (counted ready act) := by
  rw [counted_eq_due]
  refine (respects_due hr ht).bind fun b => ?_
  split
  · exact ha.bind fun _ => respects_pure true
  · exact respects_pure false

/-- Steps that do the same to related machines lead to the same kind of end. -/
theorem match_iterate {step : Execution Bool} (hs : Respects R step) (fuel : Nat) (h : R m c) :
    Ending.Match R (iterate step fuel m) (iterate step fuel c) := by
  induction fuel generalizing m c with
  | zero => exact ⟨rfl, h⟩
  | succ fuel ih =>
    have hout := hs m c h
    simp only [iterate]
    generalize step m = x at hout ⊢
    generalize step c = y at hout ⊢
    cases hout with
    | ok b h' =>
      cases b with
      | true => exact ih h'
      | false => exact ⟨rfl, h'⟩
    | error f h' => exact ⟨rfl, h'⟩

namespace Timed
variable (hR : Timed R)
include hR

theorem respects_tick : Respects R tick := by
  intro m c h
  have hs := hR.steps h
  have hl := hR.maxSteps h
  match hm : m.maxSteps with
  | none =>
    rw [tick_of_unlimited hm, tick_of_unlimited (hl ▸ hm)]
    exact .ok () (hR.ticked h)
  | some limit =>
    rcases Int.lt_or_le limit (m.steps + 1 : Nat) with hlt | hle
    · rw [tick_of_lt hm hlt, tick_of_lt (hl ▸ hm) (hs ▸ hlt)]
      exact .error _ (hR.ticked h)
    · rw [tick_of_le hm hle, tick_of_le (hl ▸ hm) (hs ▸ hle)]
      exact .ok () (hR.ticked h)

theorem stepBound?_eq (h : R m c) : m.stepBound? = c.stepBound? := by
  rw [stepBound?, stepBound?, hR.steps h, hR.maxSteps h]

end Timed

section
variable (hR : Congruence R) (ht : Timed R)
include hR ht

/-- Compiled code takes related machines to the same kind of end, before it is closed. -/
theorem match_iterate_code (code : Array Instruction) (fuel : Nat) (h : R m c) :
    Ending.Match R (iterate (step code) fuel m) (iterate (step code) fuel c) :=
  match_iterate (respects_counted (hR.respects_settle code) ht.respects_tick (hR.respects_act code))
    fuel h

/-- The reference takes related machines to the same kind of end, before it is closed. -/
theorem match_iterate_reference (symbols : Array Symbol) (pairs : BracketPairs) (fuel : Nat)
    (h : R m c) : Ending.Match R (iterate (Reference.step symbols pairs) fuel m)
      (iterate (Reference.step symbols pairs) fuel c) := by
  rw [Reference.step_eq_counted]
  exact match_iterate (respects_counted (Reference.respects_ready hR.toInward _) ht.respects_tick
    (Reference.respects_next hR.toInward _ (hR.respects_perform pairs))) fuel h

end

namespace Lockstep
variable (hR : Lockstep R)
include hR

theorem close (h : e.Match R e') : e.close.Match R e'.close := by
  obtain ⟨m, halt⟩ := e
  obtain ⟨c, halt'⟩ := e'
  obtain ⟨rfl, hmc⟩ : halt = halt' ∧ R m c := ⟨h.halt, h.machine⟩
  have hend := hR.refocus (hR.flushed hmc) .dispatch
  cases halt with
  | unfinished => exact ⟨rfl, hmc⟩
  | finished => exact ⟨rfl, hend⟩
  | faulted f => exact ⟨rfl, hend⟩

/-- Compiled code comes to the same kind of end from related machines. -/
theorem run (code : Array Instruction) (patience : Nat) (h : R m c) :
    (Machine.run code patience m).Match R (Machine.run code patience c) := by
  rw [Machine.run, Machine.run, hR.stepBound?_eq h]
  exact hR.close (match_iterate_code hR.toCongruence hR.toTimed code _ h)

/-- The reference comes to the same kind of end from related machines. -/
theorem reference {text : String} {pairs : BracketPairs}
    (hp : pairBrackets (Symbol.ofText text) = .ok pairs) (patience : Nat) (h : R m c) :
    ∃ e e', Reference.run text patience m = .ok e ∧ Reference.run text patience c = .ok e' ∧
      e.Match R e' := by
  refine ⟨_, _, by rw [Reference.run, hp]; rfl, by rw [Reference.run, hp]; rfl, ?_⟩
  rw [hR.stepBound?_eq h]
  exact hR.close (match_iterate_reference hR.toCongruence hR.toTimed _ pairs _ h)

end Lockstep

end Machine

end TapeFold
