import TapeFold.Proofs.Faults

/-!
# Linear loops in closed form

A pass over a body that lowers its control cell by `f` takes `f` from that cell and leaves the pointer
where it is, so `n` passes come to one application of the body scaled by `n` (`Tape.Passes.spread`), and
the control cell becomes zero just if it is a positive multiple of `f` (`Tape.Passes.cell_ne_zero`). A
machine that iterates such a loop with any other value never leaves it (`Machine.Endless.of_walk`), so
no run that comes to its end has made a pass by iteration.
-/

namespace TapeFold

open Machine

/-- Applies the changes of a run, scaled by `n`, and does not move. -/
def Instruction.applied (i : Instruction) (n : Int) : TapeAction Unit :=
  Tape.apply i.deltas i.baseOffset n i.minOffset

variable {body loop : Instruction} {f : Int} {n k : Nat} {t t' t₁ : Tape} {code : Array Instruction}
  {m m' m₁ : Machine}

/-! ### Passes on a tape -/

namespace Tape

/-- `n` applications of `body`, each with a cell under the pointer that is not zero, lead from one tape
to the other. -/
inductive Passes (body : Instruction) : Nat → Tape → Tape → Prop
  | refl {t : Tape} : Passes body 0 t t
  | cons {n : Nat} {t t₁ t' : Tape} (hv : t.cell t.pointer ≠ 0)
      (h : body.applied 1 t = .ok () t₁) (hp : Passes body n t₁ t') : Passes body (n + 1) t t'

theorem fits_of_cell_ne_zero (hp : 0 ≤ t.pointer) (hv : t.cell t.pointer ≠ 0) : t.Fits := by
  unfold Fits
  by_contra hlt
  obtain ⟨i, hi⟩ := Int.eq_ofNat_of_zero_le hp
  refine hv ?_
  rw [hi]
  exact cell_of_size_le (by omega)

/-- A pass leaves the pointer where it is, and takes `f` from the control cell. -/
theorem applied_one (hdelta : body.deltaAt 0 = -f) (h : body.applied 1 t = .ok () t') :
    t'.pointer = t.pointer ∧ t'.cell t.pointer = t.cell t.pointer - f := by
  rcases apply_cases body.deltas body.baseOffset 1 body.minOffset t with
    ⟨j, hfail⟩ | ⟨t₁, hok, hp, -, hcell⟩
  · cases hfail.symm.trans h
  · cases hok.symm.trans h
    refine ⟨hp, ?_⟩
    rw [hcell, Int.sub_self, ← Instruction.deltaAt_eq, hdelta]
    omega

theorem Passes.view (hdelta : body.deltaAt 0 = -f) (h : Passes body n t t') :
    t'.pointer = t.pointer ∧ t'.cell t.pointer = t.cell t.pointer - n * f := by
  induction h with
  | refl => exact ⟨rfl, by omega⟩
  | @cons n t t₁ t' hv h _ ih =>
    obtain ⟨hp₁, hv₁⟩ := applied_one hdelta h
    obtain ⟨hp', hv'⟩ := ih
    rw [hp₁] at hp' hv'
    refine ⟨hp', ?_⟩
    rw [hv', hv₁, Int.natCast_succ, Int.add_mul]
    omega

/-- Passes bring the control cell to zero only if it is a positive multiple of `f`. -/
theorem Passes.cell_ne_zero (hf : 0 < f) (hdelta : body.deltaAt 0 = -f)
    (hv : t.cell t.pointer ≠ 0) (hn : ¬ (0 < t.cell t.pointer ∧ f ∣ t.cell t.pointer))
    (h : Passes body n t t') : t'.cell t'.pointer ≠ 0 := by
  obtain ⟨hp, hcell⟩ := h.view hdelta
  rw [hp, hcell]
  intro hzero
  have heq : t.cell t.pointer = n * f := by omega
  refine hn ⟨?_, ⟨n, by rw [heq, Int.mul_comm]⟩⟩
  have hnonneg : 0 ≤ (n : Int) * f := Int.mul_nonneg (by omega) (by omega)
  omega

theorem applied_of_fault {i : Int}
    (h : t.applyFault? body.deltas body.baseOffset body.minOffset = some i) (q : Int) :
    body.applied q t = .error (.leftOfFirst i) t := apply_of_fault q h

theorem applied_of_none (hd : body.deltas ≠ [])
    (h : t.applyFault? body.deltas body.baseOffset body.minOffset = none) (q : Int) :
    body.applied q t = .ok () (t.spread body.deltas (t.pointer + body.baseOffset).toNat q) :=
  apply_of_ne_nil q hd h

theorem fault_of_applied {q : Int} (h : body.applied q t = .ok () t') :
    t.applyFault? body.deltas body.baseOffset body.minOffset = none := by
  cases hfault : t.applyFault? body.deltas body.baseOffset body.minOffset with
  | none => rfl
  | some i => cases (applied_of_fault hfault q).symm.trans h

/-- Passes over a body that does not fail add up. -/
theorem Passes.spread (hf : 0 < f) (hdelta : body.deltaAt 0 = -f)
    (hok : t.applyFault? body.deltas body.baseOffset body.minOffset = none)
    (hv : t.cell t.pointer = f * (n + 1 : Nat)) : Passes body (n + 1) t
      (t.spread body.deltas (t.pointer + body.baseOffset).toNat (n + 1 : Nat)) := by
  have hd := deltas_ne_nil hdelta hf
  have hne {v : Int} {n : Nat} (h : v = f * (n + 1 : Nat)) : v ≠ 0 := by
    rw [h]
    exact Int.ne_of_gt (Int.mul_pos hf (by omega))
  induction n generalizing t with
  | zero => exact .cons (hne hv) (applied_of_none hd hok 1) .refl
  | succ n ih =>
    have hfirst := applied_of_none hd hok 1
    obtain ⟨hp₁, hv₁⟩ := applied_one hdelta hfirst
    have hrest := ih ((applyFault?_congr hp₁ _ _ _).trans hok) (by
      rw [hp₁, hv₁, hv, Int.natCast_succ (n + 1), Int.mul_add]
      omega)
    rw [hp₁, spread_spread hd, Int.add_comm 1] at hrest
    exact .cons (hne hv) hfirst hrest

end Tape

/-! ### A loop that is never left -/

namespace Machine

/-- The machine goes through a linear loop by iteration, and its control cell is not going to be
zero. -/
structure Endless (body : Instruction) (f : Int) (m : Machine) : Prop where
  pos : 0 < f
  delta : body.deltaAt 0 = -f
  focus : ∃ exit, m.focus = .iterate body exit
  pointer : 0 ≤ m.tape.pointer
  cell_ne : m.tape.cell m.tape.pointer ≠ 0
  never : ¬ (0 < m.tape.cell m.tape.pointer ∧ f ∣ m.tape.cell m.tape.pointer)

/-- The machine after a pass by iteration that makes its tape `t`. -/
def passed (m : Machine) (t : Tape) : Machine :=
  { m with tape := t, steps := m.steps + 1, fallbackPasses := m.fallbackPasses + 1 }

/-- What may come of a step in a loop that is never left. -/
inductive Iterates (body : Instruction) (m : Machine) : EStateM.Result Fault Machine Bool → Prop
  | limit {limit : Int} (hl : m.maxSteps = some limit) :
      Iterates body m (.error (.stepLimit limit) m.ticked)
  | underflow {i : Int} (h : body.applied 1 m.tape = .error (.leftOfFirst i) m.tape) :
      Iterates body m (.error (.underflow i) m.ticked)
  | pass {t : Tape} (h : body.applied 1 m.tape = .ok () t) :
      Iterates body m (.ok true (m.passed t))

theorem Endless.settle (h : Endless body f m) (hc : m.cursor < code.size) :
    settle code m = .ok true m := by
  obtain ⟨exit, hf⟩ := h.focus
  have hexit : m.focus.exit? = some exit := by rw [hf]; rfl
  have hfits := Tape.fits_of_cell_ne_zero h.pointer h.cell_ne
  rw [settle_of_ne_zero hexit h.pointer h.cell_ne, hfits.grow_eq h.pointer, decide_eq_true hc]

theorem Endless.iterates (h : Endless body f m) (hc : m.cursor < code.size) :
    Iterates body m (step code m) := by
  obtain ⟨exit, hf⟩ := h.focus
  rcases tick_cases m with ht | ⟨limit, hl, ht⟩
  · rw [step_eq_counted, counted_of_tick (h.settle hc) ht]
    have hact : act code m.ticked = passOf (.iterate body exit) m.ticked := by
      rw [act_of_loop (m := m.ticked) (by show m.focus.exit? = _; rw [hf]; rfl)]
      show passOf m.focus _ = _
      rw [hf]
    rw [hact, passOf]
    rcases Tape.apply_cases body.deltas body.baseOffset 1 body.minOffset m.tape with
      ⟨i, hfail⟩ | ⟨t, hok, -⟩
    · rw [bind_of_error (onTape_of_error (m := m.ticked) hfail)]
      exact .underflow hfail
    · rw [bind_of_ok (onTape_of_ok (m := m.ticked) hok)]
      exact .pass hok
  · rw [step_eq_counted, counted_of_tick_error (h.settle hc) ht]
    exact .limit hl

theorem Endless.passed (h : Endless body f m) (hpass : body.applied 1 m.tape = .ok () t) :
    Endless body f (m.passed t) := by
  obtain ⟨hp, hv⟩ := Tape.applied_one h.delta hpass
  have hne := (Tape.Passes.cons h.cell_ne hpass .refl).cell_ne_zero h.pos h.delta h.cell_ne h.never
  refine ⟨h.pos, h.delta, h.focus, ?_, hne, ?_⟩
  · show 0 ≤ t.pointer
    rw [hp]
    exact h.pointer
  · show ¬ (0 < t.cell t.pointer ∧ f ∣ t.cell t.pointer)
    rw [hp, hv]
    rintro ⟨hpos, hdvd⟩
    have hpos' := h.pos
    refine h.never ⟨by omega, ?_⟩
    have hadd := Int.dvd_add hdvd (Int.dvd_refl f)
    rwa [Int.sub_add_cancel] at hadd

theorem Endless.of_step (h : Endless body f m) (hc : m.cursor < code.size)
    (hs : step code m = .ok true m') :
    ∃ t, body.applied 1 m.tape = .ok () t ∧ m' = m.passed t ∧ Endless body f m' := by
  have hi := h.iterates hc
  rw [hs] at hi
  cases hi with
  | pass hpass => exact ⟨_, hpass, rfl, h.passed hpass⟩

/-- Passes by iteration go on as the first one does. -/
theorem Endless.of_walk (h : Endless body f m) (hc : m.cursor < code.size)
    (hw : Walk (step code) n m m') : Endless body f m' ∧ m'.cursor = m.cursor ∧
      m'.maxSteps = m.maxSteps ∧ m'.tape.pointer = m.tape.pointer ∧
      (n = 0 ∨ ∃ t, body.applied 1 m.tape = .ok () t) := by
  induction hw with
  | refl => exact ⟨h, rfl, rfl, rfl, .inl rfl⟩
  | cons hs _ ih =>
    obtain ⟨t, hpass, rfl, h₁⟩ := h.of_step hc hs
    obtain ⟨h', hc', hl', hp', -⟩ := ih h₁ hc
    exact ⟨h', hc', hl', hp'.trans (Tape.applied_one h.delta hpass).1, .inr ⟨t, hpass⟩⟩

/-- Such a loop is only broken off, and by its body on the first pass if at all. -/
theorem Endless.stops (h : Endless body f m) (hc : m.cursor < code.size)
    (hw : Walk (step code) n m m') {e : Ending} (hs : Stops (step code) m' e) :
    (n = 0 ∧ ∃ i, body.applied 1 m.tape = .error (.leftOfFirst i) m.tape ∧
      e = ⟨m.ticked, .faulted (.underflow i)⟩) ∨
    ∃ limit, m.maxSteps = some limit ∧ e = ⟨m'.ticked, .faulted (.stepLimit limit)⟩ := by
  obtain ⟨h', hc', hl', hp', hfirst⟩ := h.of_walk hc hw
  have hi := h'.iterates (hc'.trans_lt hc)
  cases hs with
  | finished hs =>
    rw [hs] at hi
    cases hi
  | faulted hs =>
    rw [hs] at hi
    cases hi with
    | limit hl => exact .inr ⟨_, hl'.symm.trans hl, rfl⟩
    | @underflow i hfail =>
      rcases hfirst with rfl | ⟨t, hpass⟩
      · obtain rfl := hw.eq_of_zero
        exact .inl ⟨rfl, i, hfail, rfl⟩
      · -- whether a pass fails depends on the pointer, which does not move
        have hnone := (Tape.applyFault?_congr hp' _ _ _).trans (Tape.fault_of_applied hpass)
        have hpass' := Tape.applied_of_none (deltas_ne_nil h.delta h.pos) hnone 1
        cases hfail.symm.trans hpass'

/-- Without a limit it is never broken off, if its body does not leave the tape. -/
theorem Endless.not_ends (h : Endless body f m) (hc : m.cursor < code.size) (hl : m.maxSteps = none)
    (hpass : body.applied 1 m.tape = .ok () t) (e : Ending) : ¬ Ends (step code) m e := by
  rintro ⟨n, m', hw, hs⟩
  rcases h.stops hc hw hs with ⟨-, i, hfail, -⟩ | ⟨limit, hlimit, -⟩
  · cases hfail.symm.trans hpass
  · cases hl.symm.trans hlimit

/-! ### Whole runs -/

/-- No pass has been made by iteration, and none is about to be. -/
structure Direct (m : Machine) : Prop where
  passes : m.fallbackPasses = 0
  focus : ∀ body exit, m.focus ≠ .iterate body exit

/-- No pass has been made by iteration, or the machine is in a loop that it never leaves. -/
inductive DirectOrEndless (code : Array Instruction) (m : Machine) : Prop
  | direct (h : Direct m)
  | endless {body : Instruction} {f : Int} (h : Endless body f m) (hc : m.cursor < code.size)

/-- What does not lead into a loop by iteration. -/
def StaysDirect (m m' : Machine) : Prop := Direct m → Direct m'

theorem Direct.scan (h : Direct m) (d : Int) (exit : Option Int) :
    Direct { m with focus := .scan d exit } := by
  refine ⟨h.passes, ?_⟩
  rintro body exit' ⟨⟩

theorem Direct.goto (h : Direct m) (t : Tape) (k : Int) :
    Direct { m with tape := t, cursor := k, focus := .dispatch } := by
  refine ⟨h.passes, ?_⟩
  rintro body exit' ⟨⟩

theorem StaysDirect.trans (h : StaysDirect m m₁) (h' : StaysDirect m₁ m') : StaysDirect m m' :=
  h' ∘ h

theorem StaysDirect.of_eq (hn : m'.fallbackPasses = m.fallbackPasses) (hf : m'.focus = m.focus) :
    StaysDirect m m' := by
  intro h
  refine ⟨hn.trans h.passes, ?_⟩
  rw [hf]
  exact h.focus

theorem staysDirect_onTape {α : Type} (action : TapeAction α) :
    Keeps StaysDirect (onTape action) :=
  keeps_onTape (fun _ _ => .of_eq rfl rfl) action

theorem staysDirect_jump (target : Option Int) : Keeps StaysDirect (jump target) := by
  cases target with
  | none => exact fun _ => .of_eq rfl rfl
  | some k => exact fun m h => h.goto m.tape k

theorem staysDirect_settle : Keeps StaysDirect (settle code) :=
  keeps_settle .trans (fun _ _ => .of_eq rfl rfl) (fun _ => .of_eq rfl rfl) staysDirect_jump

theorem staysDirect_execute {i : Instruction} (hk : i.kind ≠ .loopOpen) :
    Keeps StaysDirect (execute code i) := by
  refine keeps_execute .trans (fun _ _ => .of_eq rfl rfl) (fun _ => .of_eq rfl rfl) ?_ ?_
    (fun ho => absurd ho hk) fun _ => staysDirect_jump _
  · refine keeps_bind .trans (fun m => ?_) fun _ => staysDirect_onTape _
    unfold read
    split <;> exact .of_eq rfl rfl
  · exact keeps_bind .trans (staysDirect_onTape _) fun _ _ => .of_eq rfl rfl

theorem Direct.of_ok {α : Type} {x : Execution α} {a : α} (h : Direct m)
    (hx : Keeps StaysDirect x) (ho : x m = .ok a m') : Direct m' := by
  have hm := hx m
  rw [ho] at hm
  exact hm h

/-- A linear loop that is not evaluated in one go is never left. -/
theorem Direct.openLinear (h : Direct m) (hc : m.cursor < code.size) (hf : 0 < f)
    (hdelta : body.deltaAt 0 = -f) (hp : 0 ≤ m.tape.pointer)
    (hv : m.tape.cell m.tape.pointer ≠ 0)
    (ho : openLinear loop body f (m.tape.cell m.tape.pointer) m = .ok () m') :
    DirectOrEndless code m' := by
  unfold Machine.openLinear at ho
  split at ho
  · refine .direct (h.of_ok ?_ ho)
    exact keeps_bind .trans (staysDirect_onTape _) fun _ =>
      keeps_bind .trans (fun _ => .of_eq rfl rfl) fun _ => staysDirect_jump _
  · rename_i hn
    cases ho
    have hnever : ¬ (0 < m.tape.cell m.tape.pointer ∧ f ∣ m.tape.cell m.tape.pointer) := by
      rwa [Int.dvd_iff_emod_eq_zero]
    exact .endless ⟨hf, hdelta, ⟨_, rfl⟩, hp, hv, hnever⟩ hc

theorem Direct.openLoop (h : Direct m) (hm : Marked code) (hi : code[k]? = some loop)
    (hk : loop.kind = .loopOpen) (hc : m.cursor = k) (ho : openLoop code loop m = .ok () m') :
    DirectOrEndless code m' := by
  have hlt := (Array.getElem?_eq_some_iff.1 hi).1
  rcases Int.lt_or_le m.tape.pointer 0 with hp | hp
  · cases (openLoop_of_neg hp).symm.trans ho
  by_cases hv : m.tape.cell m.tape.pointer = 0
  · obtain ⟨target, ht⟩ := hm.linked hi (.inl hk)
    cases (openLoop_of_zero ht hp hv).symm.trans ho
    exact .direct (h.goto _ _)
  have hgrow := (Tape.fits_of_cell_ne_zero hp hv).grow_eq hp
  cases hl : loop.linearFactor with
  | some f =>
    obtain ⟨-, hf, body, close, hsole, -, hdelta⟩ := hm.linear hi hl
    have hfetch : fetch? code (m.cursor + 1) = some body := by
      rw [fetch?, if_pos (by omega), hc]
      exact hsole.body_at
    rw [openLoop_of_factor hl hfetch hp hv, hgrow] at ho
    exact h.openLinear (by omega) hf hdelta hp hv ho
  | none =>
    rw [openLoop_of_ne_zero hp hv, hl, hgrow] at ho
    cases hd : loop.scanStep with
    | some d =>
      rw [hd] at ho
      change EStateM.Result.ok () { m with focus := .scan d loop.jumpTarget } = _ at ho
      cases ho
      exact .direct (h.scan d loop.jumpTarget)
    | none =>
      rw [hd] at ho
      change EStateM.Result.ok () { m with cursor := m.cursor + 1 } = _ at ho
      cases ho
      exact .direct ⟨h.passes, h.focus⟩

theorem Direct.of_step (h : Direct m) (ho : Orderly code m) (hm : Marked code)
    (hs : step code m = .ok true m') : DirectOrEndless code m' := by
  rw [step_eq_counted] at hs
  obtain ⟨m₁, hr, -, hact⟩ := exists_of_counted_ok hs
  have h₁ : Direct m₁.ticked :=
    StaysDirect.of_eq (m := m₁) rfl rfl (h.of_ok staysDirect_settle hr)
  cases (ho.poised hm hr).ticked.stands with
  | @dispatch k hf hc hk _ =>
    match hi : fetch? code m₁.ticked.cursor with
    | none => cases (act_of_none hf hi).symm.trans hact
    | some i =>
      rw [act_of_dispatch hf hi] at hact
      by_cases hopen : i.kind = .loopOpen
      · rw [execute, hopen] at hact
        rw [fetch?, if_pos (by omega), hc] at hi
        exact h₁.openLoop hm hi hopen hc hact
      · exact .direct (h₁.of_ok (staysDirect_execute hopen) hact)
  | iterate _ _ hf => exact absurd hf (h₁.focus _ _)
  | scan _ _ hf =>
    rw [act_of_loop (by rw [hf]; rfl), hf] at hact
    refine .direct (h₁.of_ok ?_ hact)
    exact keeps_bind .trans (staysDirect_onTape _) fun _ _ => .of_eq rfl rfl

/-- No run of compiled code leaves a loop that it goes through by iteration. -/
theorem DirectOrEndless.of_walk (h : DirectOrEndless code m) (ho : Orderly code m)
    (hs : Shape code) (hm : Marked code) (hw : Walk (step code) n m m') :
    DirectOrEndless code m' := by
  induction hw with
  | refl => exact h
  | cons hstep _ ih =>
    refine ih ?_ (ho.of_step hs hm hstep)
    cases h with
    | direct h => exact h.of_step ho hm hstep
    | endless h hc =>
      obtain ⟨t, -, rfl, h₁⟩ := h.of_step hc hstep
      exact .endless h₁ hc

/-- Iterated from the tape `t`, the loop ends after as many passes as the control cell holds `f`, and it
is evaluated to the same tape. -/
structure Closes (body : Instruction) (f : Int) (t t' : Tape) : Prop where
  passes : Tape.Passes body (t.cell t.pointer / f).toNat t t'
  zero : t'.cell t'.pointer = 0
  scaled : body.applied (t.cell t.pointer / f) t = .ok () t'
  evaluated : ∀ (loop : Instruction) (m : Machine), m.tape = t →
    openLinear loop body f (t.cell t.pointer) m =
      jump loop.jumpTarget { m with tape := t', linearEvaluations := m.linearEvaluations + 1 }

section
variable (hf : 0 < f) (hdelta : body.deltaAt 0 = -f)
include hf hdelta

end

end Machine

end TapeFold
