import TapeFold.Proofs.Action

/-!
# Machines that programs cannot tell apart

A relation between machines is a congruence if it is kept by what actions are made of: looking at the
cursor and the focus, going somewhere, counting, operating on the tape, reading and writing. Then it is
kept by all that compiled code and the reference do (`Congruence.respects_act`,
`Congruence.respects_perform`). A relation that only reading or writing may break is kept by all that
does neither (`Inward.outcome_act`, `Inward.outcome_perform`).
-/

namespace TapeFold

namespace Machine

/-- Two results with the same value or fault, and with related states. -/
inductive Outcome {ε σ α : Type} (R : σ → σ → Prop) :
    EStateM.Result ε σ α → EStateM.Result ε σ α → Prop
  | ok {m c : σ} (a : α) (h : R m c) : Outcome R (.ok a m) (.ok a c)
  | error {m c : σ} (f : ε) (h : R m c) : Outcome R (.error f m) (.error f c)

/-- The action does the same to related states: machines, or tapes. -/
def Respects {ε σ α : Type} (R : σ → σ → Prop) (x : EStateM ε σ α) : Prop :=
  ∀ m c, R m c → Outcome R (x m) (x c)

/-- Related machines cannot be told apart by an action that neither reads nor writes. -/
structure Inward (R : Machine → Machine → Prop) : Prop where
  cursor : ∀ {m c}, R m c → m.cursor = c.cursor
  focus : ∀ {m c}, R m c → m.focus = c.focus
  goto : ∀ {m c}, R m c → ∀ k : Int, R { m with cursor := k } { c with cursor := k }
  refocus : ∀ {m c}, R m c → ∀ F : Focus, R { m with focus := F } { c with focus := F }
  linear : ∀ {m c}, R m c → R { m with linearEvaluations := m.linearEvaluations + 1 }
    { c with linearEvaluations := c.linearEvaluations + 1 }
  fallback : ∀ {m c}, R m c → R { m with fallbackPasses := m.fallbackPasses + 1 }
    { c with fallbackPasses := c.fallbackPasses + 1 }
  scan : ∀ {m c}, R m c → R { m with scanPasses := m.scanPasses + 1 }
    { c with scanPasses := c.scanPasses + 1 }
  onGet : Respects R (onTape Tape.get)
  onSet : ∀ v, Respects R (onTape (Tape.set v))
  onAdd : ∀ position delta, Respects R (onTape (Tape.add position delta))
  onApply : ∀ ds base f low, Respects R (onTape (Tape.apply ds base f low))
  onShift : ∀ a, Respects R (onTape (Tape.shift a))

/-- Related machines cannot be told apart by an action. -/
structure Congruence (R : Machine → Machine → Prop) : Prop extends Inward R where
  onRead : Respects R read
  onWrite : ∀ v, Respects R (write v)

variable {α β : Type} {R : Machine → Machine → Prop} {T : Tape → Tape → Prop}

theorem Outcome.of_eq {a b : α} {m c : Machine} (hab : a = b) (h : R m c) :
    Outcome R (.ok a m : EStateM.Result Fault Machine α) (.ok b c) := hab ▸ .ok a h

theorem Outcome.flip {x y : EStateM.Result Fault Machine α} (h : Outcome R x y) :
    Outcome (fun c m => R m c) y x := by
  cases h with
  | ok a h => exact .ok a h
  | error f h => exact .error f h

/-- Where a step does not stop, it does not stop on the related machine. -/
theorem Outcome.exists_step {step : Execution Bool} {m m₁ c : Machine}
    (h : Outcome R (step m) (step c)) (hs : step m = .ok true m₁) :
    ∃ c₁, step c = .ok true c₁ ∧ R m₁ c₁ := by
  rw [hs] at h
  generalize step c = r at h ⊢
  cases h with
  | ok _ h => exact ⟨_, rfl, h⟩

theorem Outcome.exists_stops {step : Execution Bool} {m c : Machine} {e : Ending}
    (h : Outcome R (step m) (step c)) (hs : Stops step m e) :
    ∃ e', Stops step c e' ∧ e'.halt = e.halt ∧ R e.machine e'.machine := by
  generalize hc : step c = r at h
  cases hs with
  | finished hs =>
    rw [hs] at h
    cases h with
    | ok _ h => exact ⟨_, .finished hc, rfl, h⟩
  | faulted hs =>
    rw [hs] at h
    cases h with
    | error _ h => exact ⟨_, .faulted hc, rfl, h⟩

theorem Outcome.bind {x : Execution α} {f : α → Execution β} {m c : Machine}
    (hx : Outcome R (x m) (x c)) (hf : ∀ a, Respects R (f a)) :
    Outcome R ((x >>= f) m) ((x >>= f) c) := by
  match hm : x m, hc : x c, hx with
  | _, _, .ok a h' =>
    rw [bind_of_ok hm, bind_of_ok hc]
    exact hf a _ _ h'
  | _, _, .error e h' =>
    rw [bind_of_error hm, bind_of_error hc]
    exact .error e h'

theorem Respects.bind {x : Execution α} {f : α → Execution β} (hx : Respects R x)
    (hf : ∀ a, Respects R (f a)) : Respects R (x >>= f) := fun m c h => (hx m c h).bind hf

theorem respects_pure (a : α) : Respects R (pure a : Execution α) := fun _ _ h => .ok a h

/-- What does the same to related tapes does the same to machines with such tapes. -/
theorem respects_onTape_of (ht : ∀ {m c}, R m c → T m.tape c.tape)
    (hset : ∀ {m c}, R m c → ∀ {t u}, T t u → R { m with tape := t } { c with tape := u })
    {action : TapeAction α} (ha : Respects T action) : Respects R (onTape action) := by
  intro m c h
  match hm : action m.tape, hc : action c.tape, ha _ _ (ht h) with
  | _, _, .ok a htu =>
    rw [onTape_of_ok hm, onTape_of_ok hc]
    exact .ok a (hset h htu)
  | _, _, .error (.leftOfFirst i) htu =>
    rw [onTape_of_error hm, onTape_of_error hc]
    exact .error _ (hset h htu)

/-- A relation between machines with the same tape is kept by every operation on it. -/
theorem respects_onTape (ht : ∀ {m c}, R m c → m.tape = c.tape)
    (hset : ∀ {m c}, R m c → ∀ t, R { m with tape := t } { c with tape := t })
    (action : TapeAction α) : Respects R (onTape action) := by
  refine respects_onTape_of (T := Eq) ht (fun h t u htu => htu ▸ hset h t) ?_
  rintro t _ rfl
  match action t with
  | .ok a t' => exact .ok a rfl
  | .error e t' => exact .error e rfl

/-- A relation between machines with the same input is kept by reading. -/
theorem respects_read
    (hin : ∀ {m c}, R m c → m.input = c.input ∧ m.eofValue = c.eofValue ∧
      ∀ input, R { m with input } { c with input }) : Respects R read := by
  intro m c h
  obtain ⟨hinput, heof, hset⟩ := hin h
  unfold read
  rw [← hinput]
  match m.input.read with
  | .ok none input =>
    exact .of_eq heof (hset input)
  | .ok (some b) input => exact .ok _ (hset input)
  | .error .interrupted input => exact .error _ (hset input)

/-- A relation between machines with the same tape is kept by what neither reads nor writes if it is
kept where the tape is set, by going somewhere and by counting. -/
theorem Inward.of_tape (ht : ∀ {m c}, R m c → m.tape = c.tape)
    (hset : ∀ {m c}, R m c → ∀ t, R { m with tape := t } { c with tape := t })
    (hcursor : ∀ {m c}, R m c → m.cursor = c.cursor) (hfocus : ∀ {m c}, R m c → m.focus = c.focus)
    (hgoto : ∀ {m c}, R m c → ∀ k : Int, R { m with cursor := k } { c with cursor := k })
    (hrefocus : ∀ {m c}, R m c → ∀ F : Focus, R { m with focus := F } { c with focus := F })
    (hlinear : ∀ {m c}, R m c → R { m with linearEvaluations := m.linearEvaluations + 1 }
      { c with linearEvaluations := c.linearEvaluations + 1 })
    (hfallback : ∀ {m c}, R m c → R { m with fallbackPasses := m.fallbackPasses + 1 }
      { c with fallbackPasses := c.fallbackPasses + 1 })
    (hscan : ∀ {m c}, R m c → R { m with scanPasses := m.scanPasses + 1 }
      { c with scanPasses := c.scanPasses + 1 }) : Inward R where
  cursor := hcursor
  focus := hfocus
  goto := hgoto
  refocus := hrefocus
  linear := hlinear
  fallback := hfallback
  scan := hscan
  onGet := respects_onTape ht hset _
  onSet _ := respects_onTape ht hset _
  onAdd _ _ := respects_onTape ht hset _
  onApply _ _ _ _ := respects_onTape ht hset _
  onShift _ := respects_onTape ht hset _

/-- Such a relation is a congruence if the machines have the same input and it is kept where that is
set and by writing. -/
theorem Congruence.of_inward (hR : Inward R)
    (hin : ∀ {m c}, R m c → m.input = c.input ∧ m.eofValue = c.eofValue ∧
      ∀ input, R { m with input } { c with input })
    (hwrite : ∀ {m c} (b : UInt8), R m c → R { m with output := m.output.push b }
      { c with output := c.output.push b }) : Congruence R where
  toInward := hR
  onRead := respects_read hin
  onWrite v _ _ h := .ok () (hwrite (byteOf v) h)

namespace Inward
variable (hR : Inward R)
include hR

theorem respects_advance : Respects R advance := by
  intro m c h
  have h' := hR.goto h (m.cursor + 1)
  refine .ok () ?_
  show R { m with cursor := m.cursor + 1 } { c with cursor := c.cursor + 1 }
  rwa [← hR.cursor h]

theorem respects_jump (target : Option Int) : Respects R (jump target) := by
  intro m c h
  cases target with
  | none => exact .error _ h
  | some k => exact .ok () (hR.refocus (hR.goto h k) .dispatch)

/-! ### Compiled code -/

variable (code : Array Instruction)

theorem respects_leave (exit : Option Int) : Respects R (leave code exit) := by
  have hend : Respects R (do return (← get).cursor < code.size : Execution Bool) := by
    intro m c h
    show Outcome R (.ok (decide (m.cursor < code.size)) m) (.ok (decide (c.cursor < code.size)) c)
    rw [hR.cursor h]
    exact .ok _ h
  refine hR.onGet.bind fun v => ?_
  split
  · exact (hR.respects_jump exit).bind fun _ => hend
  · exact hend

theorem respects_settle : Respects R (settle code) := by
  intro m c h
  have hf := hR.focus h
  match he : m.focus.exit? with
  | none =>
    have hd := Focus.eq_dispatch he
    rw [settle_of_dispatch hd, settle_of_dispatch (hf ▸ hd), hR.cursor h]
    exact .ok _ h
  | some exit =>
    rw [settle_of_loop he, settle_of_loop (hf ▸ he)]
    exact hR.respects_leave code exit m c h

theorem respects_applyRun (i : Instruction) : Respects R (applyRun i) :=
  (hR.onApply _ _ _ _).bind fun _ => (hR.onShift _).bind fun _ => hR.respects_advance

theorem respects_openLinear (loop body : Instruction) (factor value : Int) :
    Respects R (openLinear loop body factor value) := by
  unfold openLinear
  split
  · refine (hR.onApply _ _ _ _).bind fun _ => Respects.bind ?_ fun _ => hR.respects_jump _
    intro m c h
    exact .ok () (hR.linear h)
  · exact fun m c h => .ok () (hR.refocus h _)

theorem respects_openLoop (loop : Instruction) : Respects R (openLoop code loop) := by
  refine hR.onGet.bind fun v => ?_
  split
  · exact hR.respects_jump _
  · split
    · intro m c h
      rw [bind_of_ok (x := get) (s := m) rfl, bind_of_ok (x := get) (s := c) rfl, ← hR.cursor h]
      cases fetch? code (m.cursor + 1) with
      | some body => exact hR.respects_openLinear _ _ _ _ m c h
      | none => exact .error _ h
    · exact fun m c h => .ok () (hR.refocus h _)
    · exact hR.respects_advance

theorem respects_closeLoop (loop : Instruction) : Respects R (closeLoop loop) := by
  refine hR.onGet.bind fun v => ?_
  split
  · exact hR.respects_jump _
  · exact hR.respects_advance

theorem respects_passOf (F : Focus) : Respects R (passOf F) := by
  cases F with
  | dispatch => exact respects_pure ()
  | iterate body exit => exact (hR.onApply _ _ _ _).bind fun _ m c h => .ok () (hR.fallback h)
  | scan step exit => exact (hR.onShift _).bind fun _ m c h => .ok () (hR.scan h)

section
variable {m c : Machine} (h : R m c)
include h

theorem outcome_execute {i : Instruction}
    (hread : i.kind = .read → Outcome R (readCell m) (readCell c))
    (hwrite : i.kind = .write → Outcome R (writeCell m) (writeCell c)) :
    Outcome R (execute code i m) (execute code i c) := by
  unfold execute
  cases hk : i.kind with
  | run => exact hR.respects_applyRun i m c h
  | loopOpen => exact hR.respects_openLoop code i m c h
  | loopClose => exact hR.respects_closeLoop i m c h
  | read => exact (hread hk).bind fun _ => hR.respects_advance
  | write => exact (hwrite hk).bind fun _ => hR.respects_advance

/-- What a machine does next does the same to a related one, if that is so should it read or write. -/
theorem outcome_act
    (hread : ∀ i, m.focus = .dispatch → fetch? code m.cursor = some i → i.kind = .read →
      Outcome R (readCell m) (readCell c))
    (hwrite : ∀ i, m.focus = .dispatch → fetch? code m.cursor = some i → i.kind = .write →
      Outcome R (writeCell m) (writeCell c)) : Outcome R (act code m) (act code c) := by
  have hf := hR.focus h
  match he : m.focus.exit? with
  | none =>
    have hd := Focus.eq_dispatch he
    match hi : fetch? code m.cursor with
    | some i =>
      rw [act_of_dispatch hd hi, act_of_dispatch (hf ▸ hd) (hR.cursor h ▸ hi)]
      exact hR.outcome_execute code h (hread i hd hi) (hwrite i hd hi)
    | none =>
      rw [act_of_none hd hi, act_of_none (hf ▸ hd) (hR.cursor h ▸ hi)]
      exact .error _ h
  | some exit =>
    rw [act_of_loop he, act_of_loop (hf ▸ he), hf]
    exact hR.respects_passOf _ m c h

end

/-! ### The reference -/

variable (pairs : BracketPairs)

theorem respects_jumpFrom (position : Nat) : Respects R (Reference.jumpFrom pairs position) :=
  fun _ _ h => .ok () (hR.goto h _)

theorem outcome_perform {m c : Machine} (h : R m c) (position : Nat) {s : Symbol}
    (hread : s = .read → Outcome R (readCell m) (readCell c))
    (hwrite : s = .write → Outcome R (writeCell m) (writeCell c)) :
    Outcome R (Reference.perform pairs position s m) (Reference.perform pairs position s c) := by
  cases s with
  | act a =>
    cases a with
    | inc => exact hR.onAdd 0 1 m c h
    | dec => exact hR.onAdd 0 (-1) m c h
    | left => exact hR.onShift (-1) m c h
    | right => exact hR.onShift 1 m c h
  | read => exact hread rfl
  | write => exact hwrite rfl
  | loopOpen =>
    refine (hR.onGet m c h).bind fun v => ?_
    split
    · exact hR.respects_jumpFrom pairs position
    · exact respects_pure ()
  | loopClose =>
    refine (hR.onGet m c h).bind fun v => ?_
    split
    · exact hR.respects_jumpFrom pairs position
    · exact respects_pure ()

end Inward

namespace Congruence
variable (hR : Congruence R)
include hR

theorem respects_readCell : Respects R readCell := hR.onRead.bind hR.onSet

theorem respects_writeCell : Respects R writeCell := hR.onGet.bind hR.onWrite

theorem respects_execute (code : Array Instruction) (i : Instruction) :
    Respects R (execute code i) := by
  intro m c h
  refine hR.outcome_execute code h ?_ ?_
  · exact fun _ => hR.respects_readCell m c h
  · exact fun _ => hR.respects_writeCell m c h

theorem respects_act (code : Array Instruction) : Respects R (act code) := by
  intro m c h
  refine hR.outcome_act code h ?_ ?_
  · exact fun _ _ _ _ => hR.respects_readCell m c h
  · exact fun _ _ _ _ => hR.respects_writeCell m c h

theorem respects_perform (pairs : BracketPairs) (position : Nat) (s : Symbol) :
    Respects R (Reference.perform pairs position s) := by
  intro m c h
  refine hR.outcome_perform pairs h position ?_ ?_
  · exact fun _ => hR.respects_readCell m c h
  · exact fun _ => hR.respects_writeCell m c h

end Congruence

end Machine

end TapeFold
