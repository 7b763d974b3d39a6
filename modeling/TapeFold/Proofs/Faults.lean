import TapeFold.Proofs.Safety

/-!
# What a fault leaves behind

Where a run of a compiled program faults, its tape and what it has written are as they were when the
last step was counted (`Program.fails_cleanly_compile`): no instruction, linear evaluation or pass is
ever half done. Only a scan that leaves the tape has moved the pointer, to the cell that it faults on
(`Poised.scan_of_left`).
-/

namespace TapeFold.Machine

/-- A scan has left the tape. -/
inductive ScanUnderflow (m : Machine) : Fault → Prop
  | mk {d : Int} {exit : Option Int} (i : Int) (hf : m.focus = .scan d exit) :
      ScanUnderflow m (.underflow i)

/-- The fault `f` leaves `e` of a machine `m` that was about to count its last step. -/
structure FailsCleanly (m e : Machine) (f : Fault) : Prop where
  steps : e.steps = m.steps + 1
  cells : e.tape.cells = m.tape.cells
  written : e.output.bytes = m.output.bytes
  pointer : ¬ ScanUnderflow m f → e.tape.pointer = m.tape.pointer
  scanned : ∀ (d : Int) (exit : Option Int) (i : Int), m.focus = .scan d exit → f = .underflow i →
    i < 0 ∧ e.tape.pointer = i ∧ i = m.tape.pointer + d

/-- A machine that is about to execute an instruction is so afterwards. -/
def StaysOut (m m' : Machine) : Prop := m.focus = .dispatch → m'.focus = .dispatch

/-- The pointer has not moved. -/
def SamePointer (m m' : Machine) : Prop := m'.tape.pointer = m.tape.pointer

variable {code : Array Instruction} {m m' m₁ m₂ e : Machine} {i loop body : Instruction}
  {n k : Nat} {f : Fault}

/-! ### The way into a loop -/

theorem StaysOut.trans (h : StaysOut m m₁) (h' : StaysOut m₁ m') : StaysOut m m' := h' ∘ h

theorem SamePointer.trans (h : SamePointer m m₁) (h' : SamePointer m₁ m') : SamePointer m m' :=
  Eq.trans h' h

theorem staysOut_onTape {α : Type} (action : TapeAction α) : Keeps StaysOut (onTape action) :=
  keeps_onTape (fun _ _ => id) action

theorem staysOut_jump (target : Option Int) : Keeps StaysOut (jump target) := by
  cases target with
  | none => exact fun _ => id
  | some t => exact fun _ _ => rfl

theorem staysOut_advance : Keeps StaysOut advance := fun _ => id

theorem staysOut_read : Keeps StaysOut read := by
  intro m
  unfold read
  split <;> exact id

/-- Only an opening bracket leads into a loop. -/
theorem staysOut_execute (hk : i.kind ≠ .loopOpen) : Keeps StaysOut (execute code i) := by
  refine keeps_execute .trans (fun _ _ => id) staysOut_advance ?_ ?_ (fun ho => absurd ho hk)
    fun _ => staysOut_jump _
  · exact keeps_bind .trans staysOut_read fun _ => staysOut_onTape _
  · exact keeps_bind .trans (staysOut_onTape _) fun _ _ => id

theorem samePointer_get : Keeps SamePointer (onTape Tape.get) := by
  intro m
  rcases Int.lt_or_le m.tape.pointer 0 with hp | hp
  · rw [onTape_of_error (Tape.get_of_neg hp)]
    rfl
  · rw [onTape_of_ok (Tape.get_of_nonneg hp)]
    exact Tape.pointer_grow _ _

theorem samePointer_apply (ds : List Int) (base factor : Int) (low : Option Int) :
    Keeps SamePointer (onTape (Tape.apply ds base factor low)) := by
  intro m
  rcases Tape.apply_cases ds base factor low m.tape with ⟨j, h⟩ | ⟨t, h, hp, -⟩
  · rw [onTape_of_error h]
    rfl
  · rw [onTape_of_ok h]
    exact hp

theorem samePointer_jump (target : Option Int) : Keeps SamePointer (jump target) := by
  cases target <;> exact fun _ => rfl

theorem samePointer_openLinear (factor value : Int) :
    Keeps SamePointer (openLinear loop body factor value) := by
  unfold openLinear
  split
  · exact keeps_bind .trans (samePointer_apply _ _ _ _) fun _ =>
      keeps_bind .trans (fun _ => rfl) fun _ => samePointer_jump _
  · exact fun _ => rfl

theorem samePointer_openLoop : Keeps SamePointer (openLoop code loop) := by
  refine keeps_bind .trans samePointer_get fun v => ?_
  split
  · exact samePointer_jump _
  · split
    · refine keeps_bind .trans (fun _ => rfl) fun m => ?_
      split
      · exact samePointer_openLinear _ _
      · exact fun _ => rfl
    · exact fun _ => rfl
    · exact fun _ => rfl

/-- A loop is gone into on a cell of the tape. -/
theorem pointer_of_act (hf : m.focus = .dispatch) (ha : act code m = .ok () m')
    (hf' : m'.focus ≠ .dispatch) : 0 ≤ m'.tape.pointer := by
  match hi : fetch? code m.cursor with
  | none => cases (act_of_none hf hi).symm.trans ha
  | some i =>
    rw [act_of_dispatch hf hi] at ha
    by_cases hk : i.kind = .loopOpen
    · rw [execute, hk] at ha
      change openLoop code i m = _ at ha
      have hsame : SamePointer m (after (openLoop code i m)) := samePointer_openLoop m
      rw [ha] at hsame
      rcases Int.lt_or_le m.tape.pointer 0 with hp | hp
      · cases (openLoop_of_neg hp).symm.trans ha
      · exact hp.trans_eq hsame.symm
    · have hout : StaysOut m (after (execute code i m)) := staysOut_execute hk m
      rw [ha] at hout
      exact absurd (hout hf) hf'

/-! ### Scans -/

theorem Poised.act_scan (h : Poised code m) {d : Int} {exit : Option Int}
    (hf : m.focus = .scan d exit) : ∃ t, Tape.shift d m.tape = .ok () t ∧
      act code m = .ok () { m with tape := t, scanPasses := m.scanPasses + 1 } := by
  have hp := (h.under_way (by simp [hf])).1
  obtain ⟨t, hshift, -⟩ := h.fits.exists_shift hp d
  have hpass : act code m = passOf (.scan d exit) m := by
    rw [act_of_loop (by rw [hf]; rfl), hf]
  refine ⟨t, hshift, ?_⟩
  rw [hpass, passOf, bind_of_ok (onTape_of_ok hshift)]
  rfl

/-- Only a pass of a scan leaves a loop under way with the pointer off the tape. -/
theorem Poised.scan_of_left (h : Poised code m) (ha : act code m = .ok () m')
    (hf' : m'.focus ≠ .dispatch) (hp' : m'.tape.pointer < 0) :
    ∃ d exit, m.focus = .scan d exit ∧ m'.tape = m.tape.moved d ∧ m'.output = m.output ∧
      m'.steps = m.steps := by
  match hf : m.focus with
  | .dispatch =>
    have hp := pointer_of_act hf ha hf'
    omega
  | .iterate body exit =>
    have hpass : Keeps SamePointer (passOf (.iterate body exit)) :=
      keeps_bind .trans (samePointer_apply _ _ _ _) fun _ _ => rfl
    have hsame := hpass m
    rw [act_of_loop (by rw [hf]; rfl), hf] at ha
    rw [ha] at hsame
    have hp := (h.under_way (by simp [hf])).1
    have heq : m'.tape.pointer = m.tape.pointer := hsame
    omega
  | .scan d exit =>
    obtain ⟨t, hshift, hact⟩ := h.act_scan hf
    cases hact.symm.trans ha
    refine ⟨d, exit, rfl, ?_⟩
    rcases Int.lt_or_le 0 d with hd | hd
    · have hp := (h.under_way (by simp [hf])).1
      rw [Tape.shift_of_pos hd (by omega)] at hshift
      cases hshift
      change (Tape.grow _ _).pointer < 0 at hp'
      rw [Tape.pointer_grow, Tape.pointer_moved] at hp'
      omega
    · rw [Tape.shift_of_nonpos hd] at hshift
      cases hshift
      exact ⟨rfl, rfl, rfl⟩

/-! ### Faults -/

theorem FailsCleanly.of_tape (hs : e.steps = m.steps + 1) (ht : e.tape = m.tape)
    (ho : e.output = m.output) (hf : ¬ ScanUnderflow m f) : FailsCleanly m e f := by
  refine ⟨hs, ?_, ?_, ?_, ?_⟩
  · rw [ht]
  · rw [ho]
  · intro _
    rw [ht]
  · rintro d exit i hd rfl
    exact absurd (.mk i hd) hf

/-- The end of a run changes neither the tape nor what has been written. -/
theorem FailsCleanly.close (h : FailsCleanly m e f) :
    FailsCleanly m (Ending.close ⟨e, .faulted f⟩).machine f := by
  refine ⟨?_, ?_, ?_, ?_, ?_⟩
  · rw [Ending.steps_close]
    exact h.steps
  · rw [Ending.tape_close]
    exact h.cells
  · rw [Ending.bytes_close]
    exact h.written
  · rw [Ending.tape_close]
    exact h.pointer
  · rw [Ending.tape_close]
    exact h.scanned

/-- A step that faults after it has been counted leaves the tape alone. -/
theorem Orderly.failsCleanly (h : Orderly code m) (hs : Shape code) (hm : Marked code)
    (hr : settle code m = .ok true m₁) (hstep : step code m = .error f e) :
    FailsCleanly m₁ e f := by
  have hp := (h.poised hm hr).ticked
  rcases exists_of_counted_error hstep with hno | ⟨m₂, hr', ⟨limit, -, rfl, rfl⟩ | hact⟩
  · cases hr.symm.trans hno
  · cases hr.symm.trans hr'
    exact .of_tape rfl rfl rfl nofun
  · cases hr.symm.trans hr'
    have hout (d : Int) (exit : Option Int) : m₁.focus ≠ .scan d exit := by
      intro hf
      obtain ⟨t, -, hok⟩ := hp.act_scan hf
      cases hok.symm.trans hact
    have hacts := hp.acts hs hm
    rw [hact] at hacts
    cases hacts with
    | underflow i input =>
      refine .of_tape rfl rfl rfl ?_
      rintro ⟨-, hf⟩
      exact hout _ _ hf
    | interrupted => exact .of_tape rfl rfl rfl nofun

/-- A fault as the next step is settled is that of a scan, whose last pass has left the tape. -/
theorem Orderly.failsCleanly_settle (h : Orderly code m) (hs : Shape code) (hm : Marked code)
    (hr : settle code m = .ok true m₁) (hstep : step code m = .ok true m')
    (hno : settle code m' = .error f e) : FailsCleanly m₁ e f := by
  obtain ⟨m₂, hr', -, hact⟩ := exists_of_counted_ok hstep
  cases hr.symm.trans hr'
  have hset := (h.of_step hs hm hstep).settles hm
  rw [hno] at hset
  cases hset with
  | underflow hp hf =>
    obtain ⟨d, exit, hd, ht, ho, hsteps⟩ := (h.poised hm hr).ticked.scan_of_left hact hf hp
    refine ⟨hsteps, ?_, ?_, ?_, ?_⟩
    · rw [ht]
      rfl
    · rw [ho]
      rfl
    · intro hscan
      exact absurd (.mk _ hd) hscan
    · rintro d' exit' i hd' ⟨⟩
      cases hd.symm.trans hd'
      refine ⟨hp, rfl, ?_⟩
      rw [ht]
      rfl

/-! ### Histories -/

section
variable {α : Type} {view : Machine → α} {seen : Array α}

theorem history_of_step (hr : settle code m = .ok true m₁) (hstep : step code m = .ok true m') :
    history view code (k + 1) m seen = history view code k m' (seen.push (view m₁)) := by
  obtain ⟨m₂, hr', ht, hact⟩ := exists_of_counted_ok hstep
  cases hr.symm.trans hr'
  simp only [history, hr, bind_of_ok ht, hact]

theorem history_of_stop (hr : settle code m = .ok true m₁) (hstep : step code m = .error f m') :
    history view code (k + 1) m seen = seen.push (view m₁) := by
  rcases tick_cases m₁ with ht | ⟨limit, -, ht⟩
  · have hcounted : step code m = _ := counted_of_tick hr ht
    rw [hcounted] at hstep
    match ha : act code m₁.ticked with
    | .ok () m₂ =>
      rw [ha] at hstep
      cases hstep
    | .error f' m₂ => simp only [history, hr, bind_of_ok ht, ha]
  · simp only [history, hr, bind_of_error ht]

theorem history_of_settle_error (hno : settle code m = .error f m') :
    history view code k m seen = seen := by
  cases k with
  | zero => rfl
  | succ k => simp only [history, hno]

/-- A walk goes through the beginning of a history. -/
theorem history_of_walk (view : Machine → α) (hw : Walk (step code) n m m') (seen : Array α) :
    ∃ seen', ∀ k, history view code (n + k) m seen = history view code k m' seen' := by
  induction hw generalizing seen with
  | refl => exact ⟨seen, fun k => by rw [Nat.zero_add]⟩
  | @cons n m m₁ m' hstep _ ih =>
    obtain ⟨m₂, hr, -, -⟩ := exists_of_counted_ok hstep
    obtain ⟨seen', hseen⟩ := ih (seen.push (view m₂))
    refine ⟨seen', fun k => ?_⟩
    rw [Nat.add_right_comm, history_of_step hr hstep, hseen]

end

/-- Where a run faults that did not begin in a loop, its history ends with a machine of which the
fault leaves what it should. -/
theorem Orderly.exists_last (h : Orderly code m) (hd : m.focus = .dispatch) (hs : Shape code)
    (hm : Marked code) (hw : Walk (step code) n m m') (hstep : step code m' = .error f e)
    (hn : n < k) : ∃ m₁, (history id code k m #[]).back? = some m₁ ∧ FailsCleanly m₁ e f := by
  rcases exists_of_counted_error hstep with hno | ⟨m₁, hr, -⟩
  · cases n with
    | zero =>
      obtain rfl := hw.eq_of_zero
      rw [settle_of_dispatch hd] at hno
      cases hno
    | succ n =>
      obtain ⟨k, rfl⟩ : ∃ j, k = n + (j + 1) := ⟨k - (n + 1), by omega⟩
      obtain ⟨m₂, hw₂, hw'⟩ := hw.split
      obtain _ | ⟨hstep₂, hw'⟩ := hw'
      obtain rfl := hw'.eq_of_zero
      obtain ⟨m₁, hr, -, -⟩ := exists_of_counted_ok hstep₂
      obtain ⟨seen, hseen⟩ := history_of_walk id hw₂ #[]
      refine ⟨m₁, ?_, (h.of_walk hs hm hw₂).failsCleanly_settle hs hm hr hstep₂ hno⟩
      rw [hseen, history_of_step hr hstep₂, history_of_settle_error hno, Array.back?_push]
      rfl
  · obtain ⟨k, rfl⟩ : ∃ j, k = n + (j + 1) := ⟨k - (n + 1), by omega⟩
    obtain ⟨seen, hseen⟩ := history_of_walk id hw #[]
    refine ⟨m₁, ?_, (h.of_walk hs hm hw).failsCleanly hs hm hr hstep⟩
    rw [hseen, history_of_stop hr hstep, Array.back?_push]
    rfl

end TapeFold.Machine

namespace TapeFold

open Machine

/-- Where a run of a compiled program faults, its cells and what it has written are those of the last
counted step, and so is the pointer unless a scan has left the tape. -/
theorem Program.fails_cleanly_compile (text : String) (linear : Bool) (p : Program)
    (h : compile text linear = .ok p) (settings : Settings) (input : Input) (output : Output)
    (patience : Nat) (f : Fault)
    (hf : (run p.code patience (.start settings input output)).halt = .faulted f) :
    ∃ m, (history id p.code ((start settings input output).stepBound?.getD patience)
        (.start settings input output) #[]).back? = some m ∧
      FailsCleanly m (run p.code patience (.start settings input output)).machine f := by
  obtain ⟨hs, hm⟩ := shape_and_marked_of_compile h
  rw [run, Ending.halt_close] at hf
  obtain ⟨n, m', hn, hw, hstop⟩ := exists_walk_of_iterate rfl (by rw [hf]; exact Halt.noConfusion)
  rw [run]
  generalize hend : iterate (step p.code) _ (.start settings input output) = e at hf hstop ⊢
  cases hstop with
  | finished => cases hf
  | @faulted f' e hstep =>
    cases hf
    obtain ⟨m, hlast, hclean⟩ :=
      (orderly_start p.code settings input output).exists_last rfl hs hm hw hstep hn
    exact ⟨m, hlast, hclean.close⟩

/-- A scan that leaves the tape has moved the pointer to where it faults, and nothing else. -/
theorem Program.fails_cleanly_scan_off_the_tape : ∃ p m, compile "++.[<]" true = .ok p ∧
    (history id p.code 9 (.start { memorySize := 1 } (.ofBytes []) .buffered) #[]).back? = some m ∧
    FailsCleanly m (run p.code 9 (.start { memorySize := 1 } (.ofBytes []) .buffered)).machine
      (.underflow (-1)) := by
  obtain ⟨p, hp⟩ := (exists_compile_iff "++.[<]" true).2 (by decide)
  have hrun : (compile "++.[<]" true).map (fun p =>
      (run p.code 9 (.start { memorySize := 1 } (.ofBytes []) .buffered)).halt) =
      .ok (.faulted (.underflow (-1))) := by decide +kernel
  rw [hp] at hrun
  obtain ⟨m, hlast, hclean⟩ := fails_cleanly_compile "++.[<]" true p hp { memorySize := 1 }
    (.ofBytes []) .buffered 9 (.underflow (-1)) (Except.ok.inj hrun)
  exact ⟨p, m, hp, hlast, hclean⟩

end TapeFold
