import TapeFold.Proofs.Safety

/-!
# Runs that are resumed

A run of a compiled program that exceeds its limit can be gone on with under another one, and so forth
(`Machine.resume`). It comes to the end of the run without a limit, with the same work done
(`Program.resume_compile`): the bracket of a loop that was left under way is executed anew and goes
into the same loop (`Machine.Poised.execute_anew`).
-/

namespace TapeFold

namespace Output

/-- What has been written, without the places where it was flushed. -/
def unflushed (o : Output) : Output :=
  { o with stream := o.stream.map fun s => { s with flushes := #[] } }

@[simp] theorem unflushed_flush (o : Output) : o.flush.unflushed = o.unflushed := by
  obtain ⟨buffer, stream⟩ := o
  cases stream <;> rfl

theorem unflushed_push (o : Output) (b : UInt8) :
    (o.push b).unflushed = (o.unflushed.push b).unflushed := by
  obtain ⟨buffer, stream⟩ := o
  cases stream with
  | none => rfl
  | some s =>
    simp only [push, unflushed, Option.map_some]
    split <;> rfl

end Output

namespace Machine

/-- The machine without its clock, and without the places where its output was flushed. -/
def work (m : Machine) : Machine :=
  { m with steps := 0, maxSteps := none, output := m.output.unflushed }

/-- The machines differ in their clocks and in where their output was flushed, if at all. -/
def SameWork (m c : Machine) : Prop := m.work = c.work

/-- Runs `code` under one limit after the other, going on where the limit before was exceeded, and
then without a limit. -/
def resume (code : Array Instruction) (patience : Nat) : List (Option Int) → Machine → Ending
  | [], m => run code patience { m with maxSteps := none }
  | limit :: limits, m =>
    let e := run code patience { m with maxSteps := limit }
    match e.halt with
    | .faulted (.stepLimit _) => resume code patience limits e.machine
    | _ => e

/-- The run from `c` ends where it exceeds its limit, and the one from `m` comes to a machine with the
same work, which is about to count a step. -/
inductive BrokenOff (code : Array Instruction) (m c : Machine) : Prop
  | mk {n : Nat} {m' m₁ c₁ : Machine} {limit : Int} (hw : Walk (step code) n m m')
      (hr : settle code m' = .ok true m₁)
      (he : Ends (step code) c ⟨c₁, .faulted (.stepLimit limit)⟩) (hwork : SameWork m₁ c₁)

variable {code : Array Instruction} {m m₁ c c₁ : Machine} {e e' : Ending}

/-! ### The same work -/

theorem SameWork.rfl : SameWork m m := Eq.refl _

theorem SameWork.symm (h : SameWork m c) : SameWork c m := Eq.symm h

theorem SameWork.trans (h : SameWork m m₁) (h' : SameWork m₁ c) : SameWork m c := Eq.trans h h'

theorem SameWork.work_eq (h : SameWork m c) : m.work = c.work := h

theorem SameWork.tape (h : SameWork m c) : m.tape = c.tape :=
  (congrArg Machine.tape h.work_eq :)

theorem SameWork.cursor (h : SameWork m c) : m.cursor = c.cursor :=
  (congrArg Machine.cursor h.work_eq :)

theorem SameWork.focus (h : SameWork m c) : m.focus = c.focus :=
  (congrArg Machine.focus h.work_eq :)

theorem SameWork.orderly (h : SameWork m c) (ho : Orderly code m) : Orderly code c :=
  ho.congr h.tape.symm h.cursor.symm h.focus.symm

theorem congruence_sameWork : Congruence SameWork := by
  refine .of_inward (.of_tape (fun h => h.tape) ?_ (fun h => h.cursor) (fun h => h.focus) ?_ ?_ ?_ ?_
    ?_) ?_ ?_
  · intro m c h t
    exact congrArg (fun w : Machine => { w with tape := t }) h.work_eq
  · intro m c h k
    exact congrArg (fun w : Machine => { w with cursor := k }) h.work_eq
  · intro m c h F
    exact congrArg (fun w : Machine => { w with focus := F }) h.work_eq
  · intro m c h
    exact congrArg
      (fun w : Machine => { w with linearEvaluations := w.linearEvaluations + 1 }) h.work_eq
  · intro m c h
    exact congrArg (fun w : Machine => { w with fallbackPasses := w.fallbackPasses + 1 }) h.work_eq
  · intro m c h
    exact congrArg (fun w : Machine => { w with scanPasses := w.scanPasses + 1 }) h.work_eq
  · intro m c h
    refine ⟨(congrArg Machine.input h.work_eq :), (congrArg Machine.eofValue h.work_eq :), ?_⟩
    intro input
    exact congrArg (fun w : Machine => { w with input }) h.work_eq
  · intro m c b h
    have hpush := congrArg
      (fun w : Machine => { w with output := (w.output.push b).unflushed }) h.work_eq
    simpa only [SameWork, work, ← Output.unflushed_push] using hpush

/-- The end of a run flushes the output and leaves the loop under way, which changes the focus. -/
theorem sameWork_close (hh : e.halt ≠ .unfinished) :
    SameWork e.close.machine { e.machine with focus := .dispatch } := by
  obtain ⟨m, halt⟩ := e
  have hflush : SameWork { m with focus := .dispatch, output := m.output.flush }
      { m with focus := .dispatch } := by
    simp [SameWork, work]
  cases halt with
  | unfinished => exact absurd (Eq.refl _) hh
  | finished => exact hflush
  | faulted f => exact hflush

theorem SameWork.close (h : SameWork e.machine e'.machine) (hh : e.halt ≠ .unfinished)
    (hh' : e'.halt ≠ .unfinished) : SameWork e.close.machine e'.close.machine :=
  (sameWork_close hh).trans
    ((congruence_sameWork.refocus h .dispatch).trans (sameWork_close hh').symm)

/-! ### One step -/

/-- A step does the same to machines with the same work, unless it exceeds the limit of the second. -/
theorem step_outcome (code : Array Instruction) (h : SameWork m c) (hl : m.maxSteps = none) :
    Outcome SameWork (step code m) (step code c) ∨ BrokenOff code m c := by
  have hstill : Still m (after (settle code m)) := still_settle m
  match hm : settle code m, hc : settle code c, congruence_sameWork.respects_settle code m c h with
  | _, _, .error f hw =>
    rw [step_eq_counted, counted_of_ready_error hm, counted_of_ready_error hc]
    exact .inl (.error f hw)
  | _, _, .ok false hw =>
    rw [step_eq_counted, counted_of_not_ready hm, counted_of_not_ready hc]
    exact .inl (.ok false hw)
  | _, _, .ok (m := m₁) (c := c₁) true hw =>
    rw [hm] at hstill
    rcases tick_cases c₁ with ht | ⟨limit, -, ht⟩
    · left
      rw [step_eq_counted, counted_of_ready hm (hstill.maxSteps.trans hl), counted_of_tick hc ht]
      match act code m₁.ticked, act code c₁.ticked,
        congruence_sameWork.respects_act code m₁.ticked c₁.ticked hw with
      | _, _, .ok () hw' => exact .ok true hw'
      | _, _, .error f hw' => exact .error f hw'
    · have hstep : step code c = _ := counted_of_tick_error hc ht
      exact .inr (.mk .refl hm ⟨0, c, .refl, .faulted hstep⟩ hw)

theorem BrokenOff.cons (h : BrokenOff code m₁ c₁) (hm : step code m = .ok true m₁)
    (hc : step code c = .ok true c₁) : BrokenOff code m c := by
  cases h with
  | mk hw hr he hwork => exact .mk (.cons hm hw) hr (he.cons hc) hwork

theorem step_settled (h : settle code m = .ok true m₁) (h' : settle code m₁ = .ok true m₁) :
    step code m = step code m₁ := by
  have hm : step code m = _ := bind_of_ok h
  have hm₁ : step code m₁ = _ := bind_of_ok h'
  exact hm.trans hm₁.symm

/-- The bracket of a loop under way, executed anew, goes into the same loop. -/
theorem Poised.execute_anew (h : Poised code m) (hm : Marked code) (hf : m.focus ≠ .dispatch) :
    ∃ (k : Nat) (loop : Instruction), m.cursor = k ∧ code[k]? = some loop ∧
      execute code loop { m with focus := .dispatch } = .ok () m := by
  obtain ⟨hp, hv⟩ := h.under_way hf
  cases h.stands with
  | dispatch hd => exact absurd hd hf
  | @iterate k loop body close f hl hfactor hfocus hc _ hn =>
    have hbody : fetch? code (m.cursor + 1) = some body := by
      rw [hc]
      exact (fetch?_natCast (k + 1)).trans hl.body_at
    have hopen := openLoop_of_factor (m := { m with focus := .dispatch }) hfactor hbody hp hv
    refine ⟨k, loop, hc, hl.loop_at, ?_⟩
    rw [execute, hl.loop_kind]
    refine hopen.trans ?_
    -- its control cell was no positive multiple of the factor, and has not become one
    rw [h.fits.grow_eq hp, openLinear, if_neg hn, ← hfocus]
    rfl
  | @scan k loop body close d hl hd hfocus hc =>
    obtain ⟨hfactor, -⟩ := hm.scan hl.loop_at hd
    have hopen : openLoop code loop { m with focus := .dispatch } = _ := openLoop_of_ne_zero hp hv
    refine ⟨k, loop, hc, hl.loop_at, ?_⟩
    rw [execute, hl.loop_kind]
    refine hopen.trans ?_
    rw [hfactor, hd, h.fits.grow_eq hp]
    show EStateM.Result.ok () { m with focus := .scan d loop.jumpTarget } = _
    rw [← hfocus]

theorem Poised.step_anew (h : Poised code m) (hm : Marked code) (hf : m.focus ≠ .dispatch)
    (hl : m.maxSteps = none) : step code { m with focus := .dispatch } = .ok true m.ticked := by
  obtain ⟨k, loop, hc, hloop, hexec⟩ := h.ticked.execute_anew hm hf
  have hat : At code { m with focus := .dispatch } k loop := ⟨rfl, hc, hloop, hl⟩
  exact hat.step_of_ok hexec

/-! ### Whole runs -/

/-- A run ends with the work of one without a limit, or it is broken off. -/
theorem ends_outcome (h : SameWork m c) (hl : m.maxSteps = none) (he : Ends (step code) m e) :
    (∃ e', Ends (step code) c e' ∧ e'.halt = e.halt ∧ SameWork e.machine e'.machine) ∨
      BrokenOff code m c := by
  obtain ⟨n, m', hw, hs⟩ := he
  induction hw generalizing c with
  | refl =>
    rcases step_outcome code h hl with ho | hb
    · obtain ⟨e', hs', hh, hwork⟩ := ho.exists_stops hs
      exact .inl ⟨e', ⟨0, c, .refl, hs'⟩, hh, hwork⟩
    · exact .inr hb
  | cons hstep hw ih =>
    rcases step_outcome code h hl with ho | hb
    · obtain ⟨c₁, hc, hwork₁⟩ := ho.exists_step hstep
      have hl₁ := ((regular_code code).maxSteps_of_ok hstep).trans hl
      rcases ih hwork₁ hl₁ hs with ⟨e', he', hh, hwork⟩ | hb
      · exact .inl ⟨e', he'.cons hc, hh, hwork⟩
      · exact .inr (hb.cons hstep hc)
    · exact .inr hb

section
variable (hs : Shape code) (hm : Marked code)
include hs hm

/-- The limit of a run without one is not exceeded. -/
theorem Orderly.halt_ne_stepLimit (h : Orderly code m) (hl : m.maxSteps = none)
    (he : Ends (step code) m e) (limit : Int) : e.halt ≠ .faulted (.stepLimit limit) := by
  obtain ⟨n, m', hw, hstop⟩ := he
  have hl' := (h.remains_of_walk hs hm hw).maxSteps.trans hl
  cases hstop with
  | finished => nofun
  | @faulted f m'' hstep =>
    intro hf
    obtain rfl : f = .stepLimit limit := Halt.faulted.inj hf
    rcases (h.of_walk hs hm hw).fault_of_step hs hm hstep with ⟨j, hj⟩ | ⟨_, hl'', -⟩ | ⟨hj, -⟩
    · cases hj
    · rw [hl'] at hl''
      cases hl''
    · cases hj

/-- Where a run has finished, there is no instruction left. -/
theorem Orderly.size_le_of_finished (h : Orderly code m) (he : Ends (step code) m e)
    (hf : e.halt = .finished) : code.size ≤ e.machine.cursor := by
  obtain ⟨n, m', hw, hstop⟩ := he
  cases hstop with
  | faulted => cases hf
  | finished hstep =>
    have hset := (h.of_walk hs hm hw).settles hm
    rw [step_eq_counted] at hstep
    rw [ready_of_counted_false hstep] at hset
    cases hset with
    | finished _ hc => exact hc

theorem Orderly.ends_of_sameWork (ho : Orderly code m) (h : SameWork m c) (hl : m.maxSteps = none)
    (hl' : c.maxSteps = none) (he : Ends (step code) m e) :
    ∃ e', Ends (step code) c e' ∧ e'.halt = e.halt ∧ SameWork e.machine e'.machine := by
  rcases ends_outcome h hl he with hsame | ⟨-, -, hbroken, -⟩
  · exact hsame
  · exact absurd rfl ((h.orderly ho).halt_ne_stepLimit hs hm hl' hbroken _)

/-- A run that is about to count a step comes to its end also if its loop is left and entered anew. -/
theorem Poised.ends_anew (h : Poised code m) (hl : m.maxSteps = none)
    (he : Ends (step code) m e) :
    ∃ e', Ends (step code) { m with focus := .dispatch } e' ∧ e'.halt = e.halt ∧
      SameWork e.machine e'.machine := by
  by_cases hf : m.focus = .dispatch
  · refine ⟨e, ?_, rfl, .rfl⟩
    rwa [← hf]
  · have hticked : SameWork m m.ticked := .rfl
    obtain ⟨e', he', hh, hwork⟩ := h.toOrderly.ends_of_sameWork hs hm hticked hl hl he
    exact ⟨e', he'.cons (h.step_anew hm hf hl), hh, hwork⟩

/-- What is left of a run that is broken off has the work of a machine without a limit, from which the
run without a limit comes to its end as well. -/
theorem Orderly.resumable (ho : Orderly code m) (hl : m.maxSteps = none) (he : Ends (step code) m e)
    (hb : BrokenOff code m c) :
    ∃ c₁ m₁ e₁ limit, Ends (step code) c ⟨c₁, .faulted (.stepLimit limit)⟩ ∧
      SameWork m₁ (Ending.close ⟨c₁, .faulted (.stepLimit limit)⟩).machine ∧
      Orderly code m₁ ∧ m₁.maxSteps = none ∧ Ends (step code) m₁ e₁ ∧ e₁.halt = e.halt ∧
      SameWork e.machine e₁.machine := by
  obtain @⟨n, m', m₁, c₁, limit, hw, hr, hbroken, hwork⟩ := hb
  have hpoised := (ho.of_walk hs hm hw).poised hm hr
  have hl₁ : m₁.maxSteps = none := by
    have hstill : Still m' (after (settle code m')) := still_settle m'
    rw [hr] at hstill
    exact hstill.maxSteps.trans ((ho.remains_of_walk hs hm hw).maxSteps.trans hl)
  have he₁ : Ends (step code) m₁ e :=
    (he.of_walk hw).congr (step_settled hr (hpoised.settle_eq hm))
  obtain ⟨e₁, hanew, hh, hwork₁⟩ := hpoised.ends_anew hs hm hl₁ he₁
  have hclose := sameWork_close (e := ⟨c₁, .faulted (.stepLimit limit)⟩) nofun
  have hleft := (congruence_sameWork.refocus hwork .dispatch).trans hclose.symm
  exact ⟨c₁, _, e₁, limit, hbroken, hleft, hpoised.toOrderly.dispatch hm, hl₁, hanew, hh, hwork₁⟩

end

/-! ### Resuming -/

section
variable {patience : Nat} {limit : Option Int} {limits : List (Option Int)}

theorem run_eq_of_ends (he : Ends (step code) m e) :
    ∃ enough, ∀ patience, enough ≤ patience → run code patience m = e.close := by
  obtain ⟨enough, h⟩ := (regular_code code).iterate_eq_of_ends he
  exact ⟨enough, fun patience hp => congrArg Ending.close (h patience hp)⟩

theorem resume_of_stepLimit {l : Int} (h : run code patience { m with maxSteps := limit } = e)
    (hh : e.halt = .faulted (.stepLimit l)) :
    resume code patience (limit :: limits) m = resume code patience limits e.machine := by
  rw [resume, h, hh]

theorem resume_of_ne (h : run code patience { m with maxSteps := limit } = e)
    (hh : ∀ l, e.halt ≠ .faulted (.stepLimit l)) :
    resume code patience (limit :: limits) m = e := by
  rw [resume, h]
  split
  · rename_i l hl
    exact absurd hl (hh l)
  · rfl

/-- By induction on the limits, from any machine with the work of one without a limit. -/
theorem resume_ends (hs : Shape code) (hm : Marked code) (ho : Orderly code m) (h : SameWork m c)
    (hl : m.maxSteps = none) (he : Ends (step code) m e) (limits : List (Option Int)) :
    ∃ (e' : Ending) (enough : Nat),
      (∀ patience, enough ≤ patience → resume code patience limits c = e'.close) ∧
      e'.halt = e.halt ∧ SameWork e.machine e'.machine := by
  induction limits generalizing m c e with
  | nil =>
    have h' : SameWork m { c with maxSteps := none } := h
    obtain ⟨e', he', hh, hwork⟩ := ho.ends_of_sameWork hs hm h' hl rfl he
    obtain ⟨enough, hrun⟩ := run_eq_of_ends he'
    exact ⟨e', enough, hrun, hh, hwork⟩
  | cons limit limits ih =>
    have h' : SameWork m { c with maxSteps := limit } := h
    rcases ends_outcome h' hl he with ⟨e', he', hh, hwork⟩ | hb
    · have hne (l : Int) : e'.close.halt ≠ .faulted (.stepLimit l) := by
        rw [Ending.halt_close, hh]
        exact ho.halt_ne_stepLimit hs hm hl he l
      obtain ⟨enough, hrun⟩ := run_eq_of_ends he'
      exact ⟨e', enough, fun p hp => resume_of_ne (hrun p hp) hne, hh, hwork⟩
    · obtain ⟨c₁, m₁, e₁, l, hbroken, hleft, ho₁, hl₁, he₁, hh₁, hwork₁⟩ :=
        ho.resumable hs hm hl he hb
      obtain ⟨e', enough, hresume, hh, hwork⟩ := ih ho₁ hleft hl₁ he₁
      obtain ⟨enough', hrun⟩ := run_eq_of_ends hbroken
      refine ⟨e', max enough enough', fun p hp => ?_, hh.trans hh₁, hwork₁.trans hwork⟩
      rw [resume_of_stepLimit (hrun p (by omega)) rfl]
      exact hresume p (by omega)

end

/-- Run once more, a machine that has no instruction left only flushes its output. -/
theorem runEnds_of_size_le (hf : m.focus = .dispatch) (hc : code.size ≤ m.cursor) :
    RunEnds code m ⟨{ m with output := m.output.flush }, .finished⟩ := by
  refine runEnds_iff.2 ⟨⟨m, .finished⟩, ⟨0, m, .refl, .finished (step_of_end hf hc)⟩, ?_⟩
  rw [Ending.close, ← hf]

end Machine

open Machine

/-- A run of a compiled program that is broken off by its limit and resumed under another one, again
and again and at last without a limit, ends as the run without a limit does, with the same tape, input
and output and the same work counted. Once it has finished, running it again changes nothing. -/
theorem Program.resume_compile (text : String) (linear : Bool) (p : Program)
    (h : compile text linear = .ok p) (settings : Settings) (input : Input) (output : Output)
    (e : Ending) (he : RunEnds p.code (.start (settings.withLimit none) input output) e)
    (limits : List (Option Int)) :
    ∃ e' enough, (∀ patience, enough ≤ patience →
        resume p.code patience limits (.start settings input output) = e') ∧
      e'.halt = e.halt ∧ SameWork e.machine e'.machine ∧
      (e'.halt = .finished → ∀ limit, RunEnds p.code { e'.machine with maxSteps := limit }
        ⟨{ e'.machine with maxSteps := limit, output := e'.machine.output.flush }, .finished⟩) := by
  obtain ⟨hs, hm⟩ := shape_and_marked_of_compile h
  obtain ⟨e₀, he₀, rfl⟩ := runEnds_iff.1 he
  have ho := orderly_start p.code (settings.withLimit none) input output
  have hstart : SameWork (.start (settings.withLimit none) input output)
      (.start settings input output) := .rfl
  obtain ⟨e', enough, hresume, hh, hwork⟩ := resume_ends hs hm ho hstart rfl he₀ limits
  have hhalted : e'.halt ≠ .unfinished := hh ▸ he₀.halted
  refine ⟨e'.close, enough, hresume, ?_, hwork.close he₀.halted hhalted, fun hf limit => ?_⟩
  · rw [Ending.halt_close, Ending.halt_close, hh]
  · rw [Ending.halt_close] at hf
    have hsize := ho.size_le_of_finished hs hm he₀ (hh.symm.trans hf)
    rw [hwork.cursor, ← Ending.cursor_close] at hsize
    have hfocus : e'.close.machine.focus = .dispatch := (sameWork_close hhalted).focus
    exact runEnds_of_size_le hfocus hsize

/-- A scan of three moves that is broken off at its bracket and under way takes three steps more. -/
theorem Program.resume_scan_broken_off_twice : ∃ p e e' enough,
    compile "+>+>+<<[>]" true = .ok p ∧
    RunEnds p.code (.start { memorySize := 1 } (.ofBytes []) .buffered) e ∧
    e.machine.steps = 6 ∧ e.machine.scanPasses = 3 ∧
    (resume p.code 10 [some 1, some 4]
      (.start { memorySize := 1 } (.ofBytes []) .buffered)).machine.steps = 9 ∧
    (∀ patience, enough ≤ patience → resume p.code patience [some 1, some 4]
      (.start { memorySize := 1 } (.ofBytes []) .buffered) = e') ∧
    e'.halt = .finished ∧ SameWork e.machine e'.machine ∧
    RunEnds p.code e'.machine
      ⟨{ e'.machine with output := e'.machine.output.flush }, .finished⟩ := by
  obtain ⟨p, hp⟩ := (exists_compile_iff "+>+>+<<[>]" true).2 (by decide)
  let e : Ending :=
    ⟨{ tape := ⟨#[1, 1, 1, 0], 3⟩, input := .ofBytes [], output := .buffered, eofValue := -1,
       maxSteps := none, cursor := 4, steps := 6, scanPasses := 3 }, .finished⟩
  have hrun : (compile "+>+>+<<[>]" true).map (fun p =>
      (run p.code 10 (.start { memorySize := 1 } (.ofBytes []) .buffered),
        (resume p.code 10 [some 1, some 4]
          (.start { memorySize := 1 } (.ofBytes []) .buffered)).machine.steps)) =
      .ok (e, 9) := by decide +kernel
  rw [hp] at hrun
  obtain ⟨hend, hsteps⟩ := Prod.mk.inj (Except.ok.inj hrun)
  have he : RunEnds p.code (.start { memorySize := 1 } (.ofBytes []) .buffered) e :=
    ⟨by decide, 10, congrArg Except.ok hend⟩
  obtain ⟨e', enough, hresume, hh, hwork, hagain⟩ :=
    resume_compile "+>+>+<<[>]" true p hp { memorySize := 1 } (.ofBytes []) .buffered e he
      [some 1, some 4]
  exact ⟨p, e, e', enough, hp, he, rfl, rfl, hsteps, hresume, hh, hwork, hagain hh _⟩

end TapeFold
