import TapeFold.Proofs.Orderly
import TapeFold.Proofs.Runs

/-!
# Execution of compiled programs is safe

At every counted step of a compiled program the cursor and the pointer are where they have to be
(`Machine.SafeTick`), what a shortcut returns to is a closing bracket on a zero cell
(`Machine.FallsThrough`), and a run faults only by addressing a cell left of the first one, by its
limit, or where its input is interrupted (`Program.safe_compile`).
-/

namespace TapeFold.Machine

/-- The step that `m` is about to take shifts the pointer of `t` by `amount`. -/
inductive Shifts (code : Array Instruction) (m : Machine) : Tape → Int → Prop
  | run {i : Instruction} {t : Tape} (hf : m.focus = .dispatch)
      (hi : fetch? code m.cursor = some i) (hk : i.kind = .run)
      (ha : Tape.apply i.deltas i.baseOffset 1 i.minOffset m.tape = .ok () t) :
      Shifts code m t i.netShift
  | scan {d : Int} {exit : Option Int} (hf : m.focus = .scan d exit) : Shifts code m m.tape d

/-- The instruction at the cursor finds a zero cell, and the next one follows it. -/
structure FallsThrough (code : Array Instruction) (m : Machine) : Prop where
  pointer : 0 ≤ m.tape.pointer
  zero : m.tape.cell m.tape.pointer = 0
  falls : act code m.ticked = .ok () { m.ticked with cursor := m.cursor + 1 }

/-- What holds of a machine that is about to count a step. -/
structure SafeTick (code : Array Instruction) (m : Machine) : Prop where
  cursor : 0 ≤ m.cursor ∧ m.cursor < code.size
  pointer : m.tape.pointer < m.tape.size
  run : ∀ i : Instruction, m.focus = .dispatch → code[m.cursor.toNat]? = some i → i.kind = .run →
    0 ≤ m.tape.pointer
  loop : ∀ i : Instruction, code[m.cursor.toNat]? = some i → i.isLoop = true →
    ∃ j : Nat, i.jumpTarget = some (j : Int) ∧ j < code.size
  linear : ∀ (i : Instruction) (f : Int), code[m.cursor.toNat]? = some i →
    i.linearFactor = some f → 0 < f ∧ m.cursor.toNat + 1 < code.size
  close : ∀ (i loop : Instruction) (j : Nat), m.focus = .dispatch →
    code[m.cursor.toNat]? = some i → i.kind = .loopClose → i.jumpTarget = some (j : Int) →
    code[j]? = some loop → ¬ loop.Unmarked → FallsThrough code m
  shift : ∀ t amount, Shifts code m t amount → ∃ t', Tape.shift amount t = .ok () t'

/-- Between two steps or in one, a shortcut comes to its end in `m'`: a linear loop has been evaluated
in one go, or a loop under way is left. -/
inductive Returns (code : Array Instruction) (m m' : Machine) : Prop
  | evaluated {m₁ : Machine} {i : Instruction} (hr : settle code m = .ok true m₁)
      (hf : m₁.focus = .dispatch) (hi : fetch? code m₁.cursor = some i) (hl : i.isLinear = true)
      (hv : m₁.tape.cell m₁.tape.pointer ≠ 0) (ha : act code m₁.ticked = .ok () m')
      (hd : m'.focus = .dispatch)
  | left {b : Bool} (hf : m.focus ≠ .dispatch) (hr : settle code m = .ok b m')
      (hd : m'.focus = .dispatch)

variable {code : Array Instruction} {m m' : Machine} {i loop body close : Instruction} {k n : Nat}
  {f : Fault}

/-! ### Steps -/

theorem fallsThrough (h : m.tape.Fits) (hf : m.focus = .dispatch)
    (hi : fetch? code m.cursor = some i) (hk : i.kind = .loopClose) (hp : 0 ≤ m.tape.pointer)
    (hv : m.tape.cell m.tape.pointer = 0) : FallsThrough code m := by
  refine ⟨hp, hv, ?_⟩
  have hclose : closeLoop i m.ticked = _ := closeLoop_of_zero (m := m.ticked) hp hv
  rw [act_of_dispatch (m := m.ticked) hf hi, execute, hk]
  refine hclose.trans ?_
  show EStateM.Result.ok () { m.ticked with
    tape := m.tape.grow m.tape.pointer.toNat, cursor := m.cursor + 1 } = _
  rw [h.grow_eq hp]
  rfl

theorem fetch?_natCast (k : Nat) : fetch? code k = code[k]? := if_pos (by omega)

/-- At the closing bracket of a loop with a mark, the cell is zero. -/
theorem Orderly.fallsThrough (h : Orderly code m) (hf : m.focus = .dispatch)
    (hs : SoleLoop code k loop body close) (hu : ¬ loop.Unmarked)
    (hc : m.cursor = (k + 2 : Nat)) : FallsThrough code m := by
  have hfetch : fetch? code m.cursor = some close := by
    rw [hc, fetch?_natCast]
    exact hs.close_at
  cases h.stands with
  | @dispatch k' _ hc' _ ha =>
    obtain rfl : k' = k + 2 := by omega
    obtain ⟨hp, hv⟩ := ha.at_close k loop hs.loop_at hu rfl
    exact Machine.fallsThrough h.fits hf hfetch hs.close_kind hp hv
  | iterate _ _ hf' =>
    rw [hf] at hf'
    cases hf'
  | scan _ _ hf' =>
    rw [hf] at hf'
    cases hf'

theorem Poised.safeTick (h : Poised code m) (hs : Shape code) (hm : Marked code) :
    SafeTick code m := by
  obtain ⟨hcursor, -⟩ := h.cursor_mem
  have harrived (hf : m.focus = .dispatch) : Arrived code m.cursor.toNat m.tape := by
    cases h.stands with
    | dispatch _ hc _ ha => rwa [hc, Int.toNat_natCast]
    | iterate _ _ hf' =>
      rw [hf] at hf'
      cases hf'
    | scan _ _ hf' =>
      rw [hf] at hf'
      cases hf'
  refine ⟨⟨hcursor, h.cursor_lt⟩, h.fits, ?_, ?_, ?_, ?_, ?_⟩
  · intro i hf hi hk
    exact (harrived hf).run i hi hk
  · intro i hi hl
    have hk : i.kind = .loopOpen ∨ i.kind = .loopClose := by simpa [Instruction.isLoop] using hl
    rcases hk with hk | hk
    · obtain ⟨j, ht, hl⟩ := hs.opens _ i hi hk
      obtain ⟨b, hb, -, -⟩ := hl.closes
      exact ⟨j, ht, (Array.getElem?_eq_some_iff.1 hb).1⟩
    · obtain ⟨j, ht, hl⟩ := hs.loopAt_of_close hi hk
      obtain ⟨a, ha, -, -⟩ := hl.opens
      exact ⟨j, ht, (Array.getElem?_eq_some_iff.1 ha).1⟩
  · intro i f hi hl
    obtain ⟨-, hpos, body, close, hsole, -⟩ := hm.linear hi hl
    exact ⟨hpos, (Array.getElem?_eq_some_iff.1 hsole.body_at).1⟩
  · intro i loop j hf hi hk ht hj hu
    obtain ⟨body, close, hsole⟩ := hm.exists_sole hj hu
    obtain ⟨j', hj', hl⟩ := hs.loopAt_of_close hi hk
    obtain rfl : j' = j := Int.ofNat_inj.1 (Option.some.inj (hj'.symm.trans ht))
    obtain ⟨a, ha, -, hat⟩ := hl.opens
    obtain rfl := Option.some.inj (ha.symm.trans hj)
    have heq := Option.some.inj (hat.symm.trans hsole.loop_target)
    exact h.toOrderly.fallsThrough hf hsole hu (by omega)
  · intro t amount hshift
    cases hshift with
    | @run i t hf hi hk happ =>
      have hi' : code[m.cursor.toNat]? = some i := (fetch?_of_nonneg hcursor).symm.trans hi
      have hp := (harrived hf).run i hi' hk
      rcases Tape.apply_cases i.deltas i.baseOffset 1 i.minOffset m.tape with
        ⟨j, hno⟩ | ⟨t', hok, hp', hsize, -⟩
      · rw [hno] at happ
        cases happ
      · rw [hok] at happ
        cases happ
        obtain ⟨t', ht', -⟩ := (h.fits.apply hp' hsize).exists_shift (by omega) i.netShift
        exact ⟨t', ht'⟩
    | scan hf =>
      have hp := (h.under_way (by simp [hf])).1
      obtain ⟨t', ht', -⟩ := h.fits.exists_shift hp amount
      exact ⟨t', ht'⟩

/-- A loop with a mark that is done with in one step is left for its closing bracket. -/
theorem cursor_of_act_marked (hf : m.focus = .dispatch)
    (hc : m.cursor = k) (hs : SoleLoop code k loop body close) (hu : ¬ loop.Unmarked)
    (ha : act code m = .ok () m') (hd : m'.focus = .dispatch) : m'.cursor = (k + 2 : Nat) := by
  have hfetch : fetch? code m.cursor = some loop := by
    rw [hc, fetch?_natCast]
    exact hs.loop_at
  rw [act_of_dispatch hf hfetch, execute, hs.loop_kind] at ha
  change openLoop code loop m = _ at ha
  rcases Int.lt_or_le m.tape.pointer 0 with hp | hp
  · rw [openLoop_of_neg hp] at ha
    cases ha
  · by_cases hv : m.tape.cell m.tape.pointer = 0
    · rw [openLoop_of_zero hs.loop_target hp hv] at ha
      cases ha
      rfl
    · cases hl : loop.linearFactor with
      | some f =>
        have hbody : fetch? code (m.cursor + 1) = some body := by
          rw [hc]
          exact (fetch?_natCast (k + 1)).trans hs.body_at
        rw [openLoop_of_factor hl hbody hp hv, openLinear] at ha
        split at ha
        · rcases Tape.apply_cases body.deltas body.baseOffset (m.tape.cell m.tape.pointer / f)
            body.minOffset (m.tape.grow m.tape.pointer.toNat) with ⟨j, happ⟩ | ⟨t, happ, -⟩
          · rw [bind_of_error (onTape_of_error happ)] at ha
            cases ha
          · rw [bind_of_ok (onTape_of_ok happ), hs.loop_target] at ha
            cases ha
            rfl
        · cases ha
          cases hd
      | none =>
        cases hscan : loop.scanStep with
        | some d =>
          rw [openLoop_of_ne_zero hp hv, hl, hscan] at ha
          cases ha
          cases hd
        | none => exact absurd ⟨hl, hscan⟩ hu

/-- A shortcut returns to a closing bracket, which falls through. -/
theorem Orderly.returns (h : Orderly code m) (hs : Shape code) (hm : Marked code)
    (hr : Returns code m m') :
    FallsThrough code m' ∧ ∃ i, fetch? code m'.cursor = some i ∧ i.kind = .loopClose := by
  have hat {k : Nat} {loop body close : Instruction} (ho : Orderly code m')
      (hsole : SoleLoop code k loop body close) (hu : ¬ loop.Unmarked)
      (hd : m'.focus = .dispatch) (hc : m'.cursor = (k + 2 : Nat)) :
      FallsThrough code m' ∧ ∃ i, fetch? code m'.cursor = some i ∧ i.kind = .loopClose := by
    refine ⟨ho.fallsThrough hd hsole hu hc, close, ?_, hsole.close_kind⟩
    rw [hc, fetch?_natCast]
    exact hsole.close_at
  cases hr with
  | @evaluated m₁ i hr hf hi hl hv ha hd =>
    have hp := h.poised hm hr
    obtain ⟨hcursor, -⟩ := hp.cursor_mem
    have hi' : code[m₁.cursor.toNat]? = some i := (fetch?_of_nonneg hcursor).symm.trans hi
    have hu : ¬ i.Unmarked := by
      rintro ⟨hnone, -⟩
      rw [Instruction.isLinear, hnone] at hl
      cases hl
    obtain ⟨body, close, hsole⟩ := hm.exists_sole hi' hu
    have hc := cursor_of_act_marked (m := m₁.ticked) hf (Int.toNat_of_nonneg hcursor).symm
      hsole hu ha hd
    have hacts := hp.ticked.acts hs hm
    rw [ha] at hacts
    cases hacts with
    | ok ho => exact hat ho hsole hu hd hc
  | left hf hr hd =>
    have hset := h.settles hm
    rw [hr] at hset
    cases hset with
    | ready => exact absurd hd hf
    | left _ hl hu _ _ hp => exact hat hp.toOrderly hl hu hd rfl
    | finished hf' => exact absurd hf' hf

/-! ### Whole runs -/

/-- What holds whenever a step is counted holds of the history. -/
theorem forall_mem_history (hs : Shape code) (hm : Marked code) (fuel : Nat) (h : Orderly code m)
    (seen : Array Machine) (hseen : ∀ x ∈ seen, SafeTick code x) :
    ∀ x ∈ history id code fuel m seen, SafeTick code x := by
  induction fuel generalizing m seen with
  | zero => exact hseen
  | succ fuel ih =>
    unfold history
    match hr : settle code m with
    | .error f m₁ => exact hseen
    | .ok false m₁ => exact hseen
    | .ok true m₁ =>
      have hp := h.poised hm hr
      have hseen' : ∀ x ∈ seen.push (id m₁), SafeTick code x := by
        intro x hx
        rcases Array.mem_push.1 hx with hx | rfl
        · exact hseen x hx
        · exact hp.safeTick hs hm
      rcases tick_cases m₁ with ht | ⟨limit, -, ht⟩
      · simp only [bind_of_ok ht]
        have hacts := hp.ticked.acts hs hm
        match ha : act code m₁.ticked with
        | .ok () m' =>
          rw [ha] at hacts
          cases hacts with
          | ok ho => exact ih ho _ hseen'
        | .error f m' => exact hseen'
      · simp only [bind_of_error ht]
        exact hseen'

/-- The limit stays, and input that is never interrupted remains so. -/
structure Remains (m m' : Machine) : Prop where
  maxSteps : m'.maxSteps = m.maxSteps
  allowance : m.input.allowance = none → m'.input.allowance = none

theorem Orderly.remains_of_step (h : Orderly code m) (hs : Shape code) (hm : Marked code)
    (hstep : step code m = .ok true m') : Remains m m' := by
  refine ⟨(regular_code code).maxSteps_of_ok hstep, fun hnone => ?_⟩
  rw [step_eq_counted] at hstep
  obtain ⟨m₁, hr, -, hact⟩ := exists_of_counted_ok hstep
  have hstill : Still m (after (settle code m)) := still_settle m
  have hacts := (h.poised hm hr).ticked.acts hs hm
  rw [hr] at hstill
  rw [hact] at hacts
  cases hacts with
  | ok _ hin =>
    refine hin ?_
    rw [← hnone]
    exact congrArg Input.allowance hstill.input

theorem Orderly.remains_of_walk (h : Orderly code m) (hs : Shape code) (hm : Marked code)
    (hw : Walk (step code) n m m') : Remains m m' := by
  induction hw with
  | refl => exact ⟨rfl, id⟩
  | cons hstep _ ih =>
    have h₁ := h.remains_of_step hs hm hstep
    have h₂ := ih (h.of_step hs hm hstep)
    exact ⟨h₂.maxSteps.trans h₁.maxSteps, fun hnone => h₂.allowance (h₁.allowance hnone)⟩

/-- How a step of an orderly machine may fault. -/
theorem Orderly.fault_of_step (h : Orderly code m) (hs : Shape code) (hm : Marked code)
    (hstep : step code m = .error f m') :
    (∃ j, f = .underflow j) ∨ (∃ limit, m.maxSteps = some limit ∧ f = .stepLimit limit) ∨
      f = .interrupted ∧ m.input.allowance ≠ none := by
  rw [step_eq_counted] at hstep
  rcases exists_of_counted_error hstep with hr | ⟨m₁, hr, ⟨limit, hl, rfl, -⟩ | hact⟩
  · have hset := h.settles hm
    rw [hr] at hset
    cases hset
    exact .inl ⟨_, rfl⟩
  · have hstill : Still m (after (settle code m)) := still_settle m
    rw [hr] at hstill
    exact .inr (.inl ⟨limit, hstill.maxSteps.symm.trans hl, rfl⟩)
  · have hstill : Still m (after (settle code m)) := still_settle m
    have hacts := (h.poised hm hr).ticked.acts hs hm
    rw [hr] at hstill
    rw [hact] at hacts
    cases hacts with
    | underflow j input => exact .inl ⟨j, rfl⟩
    | interrupted ha =>
      refine .inr (.inr ⟨rfl, fun hnone => ha ?_⟩)
      rw [← hnone]
      exact congrArg Input.allowance hstill.input

/-- How a run of an orderly machine may fault. -/
theorem Orderly.fault_of_iterate (h : Orderly code m) (hs : Shape code) (hm : Marked code) {k : Nat}
    (hf : (iterate (step code) k m).halt = .faulted f) :
    (∃ j, f = .underflow j) ∨ (∃ limit, m.maxSteps = some limit ∧ f = .stepLimit limit) ∨
      f = .interrupted ∧ m.input.allowance ≠ none := by
  obtain ⟨n, m', -, hw, hstop⟩ := exists_walk_of_iterate rfl (by rw [hf]; nofun)
  have hr := h.remains_of_walk hs hm hw
  obtain ⟨m'', hstep⟩ : ∃ m'', step code m' = .error f m'' := by
    generalize iterate (step code) k m = e at hf hstop
    cases hstop with
    | finished => cases hf
    | @faulted f' m'' hstep =>
      cases hf
      exact ⟨m'', hstep⟩
  rcases (h.of_walk hs hm hw).fault_of_step hs hm hstep with hj | ⟨limit, hl, hf⟩ | ⟨hf, ha⟩
  · exact .inl hj
  · exact .inr (.inl ⟨limit, hr.maxSteps.symm.trans hl, hf⟩)
  · exact .inr (.inr ⟨hf, fun hnone => ha (hr.allowance hnone)⟩)

end Machine

open Machine

/-- Every run of a compiled program is safe: at each counted step the cursor and the pointer are in
range, a run has a cell to start from and a loop is linked; shortcuts return to closing brackets that
fall through; and only the tape, the limit and the input can make it fault. -/
theorem Program.safe_compile (text : String) (linear : Bool) (p : Program)
    (h : compile text linear = .ok p) (settings : Settings) (input : Input) (output : Output) :
    (∀ fuel, ∀ m ∈ history id p.code fuel (.start settings input output) #[],
      SafeTick p.code m) ∧
    (∀ n m m', Walk (step p.code) n (.start settings input output) m → Returns p.code m m' →
      FallsThrough p.code m' ∧ ∃ i, fetch? p.code m'.cursor = some i ∧ i.kind = .loopClose) ∧
    ∀ patience f, (run p.code patience (.start settings input output)).halt = .faulted f →
      (∃ j, f = .underflow j) ∨
      (∃ limit, settings.maxSteps = some limit ∧ f = .stepLimit limit) ∨
      f = .interrupted ∧ input.allowance ≠ none := by
  obtain ⟨hs, hm⟩ := shape_and_marked_of_compile h
  have hstart := orderly_start p.code settings input output
  refine ⟨fun fuel => ?_, fun n m m' hw hr => ?_, fun patience f hf => ?_⟩
  · exact forall_mem_history hs hm fuel hstart #[] (by simp)
  · exact (hstart.of_walk hs hm hw).returns hs hm hr
  · rw [run, Ending.halt_close] at hf
    exact hstart.fault_of_iterate hs hm hf

/-- A scan that leaves the tape, after a linear loop that is evaluated in one go. -/
theorem Program.safe_scan_off_the_tape : ∃ p, compile "++[--]+[<]" true = .ok p ∧
    (∀ m ∈ history id p.code 9 (.start { memorySize := 1 } (.ofBytes []) .buffered) #[],
      SafeTick p.code m) ∧
    (run p.code 9 (.start { memorySize := 1 } (.ofBytes []) .buffered)).halt =
      .faulted (.underflow (-1)) := by
  obtain ⟨p, hp⟩ := (exists_compile_iff "++[--]+[<]" true).2 (by decide)
  have hrun : (compile "++[--]+[<]" true).map (fun p =>
      (run p.code 9 (.start { memorySize := 1 } (.ofBytes []) .buffered)).halt) =
      .ok (.faulted (.underflow (-1))) := by decide +kernel
  rw [hp] at hrun
  obtain ⟨hticks, -, -⟩ :=
    safe_compile "++[--]+[<]" true p hp { memorySize := 1 } (.ofBytes []) .buffered
  exact ⟨p, hp, hticks 9, Except.ok.inj hrun⟩

end TapeFold
