import TapeFold.Interpreter
import TapeFold.Proofs.Passes
import TapeFold.Proofs.Frame
import TapeFold.Proofs.WellFormed

/-!
# Orderly machines

The pointer of a running program may stand left of the first cell, but not where a run is executed,
and a loop with a mark is never gone through by its body and its closing bracket with a cell that is
not zero. `Orderly` says so of a machine between two steps: it holds at the start of a run and is kept
by each step (`Orderly.settles`, `Poised.acts`), and where a step faults it leaves all but the input
as it was.
-/

namespace TapeFold

/-! ### Tapes that reach as far as their pointer -/

namespace Tape

/-- The pointer is not right of the last cell. -/
def Fits (t : Tape) : Prop := t.pointer < t.size

variable {t : Tape} {a : Int}

theorem fits_blank (size : Int) : (blank size).Fits := by
  show (0 : Int) < ((Array.replicate (max 1 (min size maxInitialSize)).toNat (0 : Int)).size : Nat)
  rw [Array.size_replicate]
  omega

theorem Fits.grow_eq (h : t.Fits) (hp : 0 ≤ t.pointer) : t.grow t.pointer.toNat = t := by
  unfold Fits at h
  exact grow_of_lt (by omega)

theorem Fits.put (h : t.Fits) (v : Int) : (t.put v).Fits := by
  unfold Fits at h ⊢
  rw [pointer_put, size_put]
  omega

theorem Fits.exists_shift (h : t.Fits) (hp : 0 ≤ t.pointer) (a : Int) :
    ∃ t', shift a t = .ok () t' ∧ t'.Fits := by
  unfold Fits at h ⊢
  rcases Int.lt_or_le 0 a with ha | ha
  · refine ⟨_, shift_of_pos ha (by omega), ?_⟩
    rw [pointer_grow, size_grow, pointer_moved]
    omega
  · refine ⟨_, shift_of_nonpos ha, ?_⟩
    rw [pointer_moved, size_moved]
    omega

/-- Changes are applied to all their cells, or to none. -/
theorem apply_cases (ds : List Int) (base f : Int) (low : Option Int) (t : Tape) :
    (∃ j, apply ds base f low t = .error (.leftOfFirst j) t) ∨
      ∃ t', apply ds base f low t = .ok () t' ∧ t'.pointer = t.pointer ∧ t.size ≤ t'.size ∧
        ∀ k, t'.cell k = t.cell k + f * rowAt ds base (k - t.pointer) := by
  cases hfault : t.applyFault? ds base low with
  | some j => exact .inl ⟨j, apply_of_fault f hfault⟩
  | none =>
    right
    by_cases hd : ds = []
    · subst hd
      exact ⟨t, apply_nil f hfault, rfl, Nat.le_refl _, by simp⟩
    · refine ⟨_, apply_of_ne_nil f hd hfault, pointer_spread _ _ _, ?_, ?_⟩
      · rw [size_spread hd]
        exact Nat.le_max_left _ _
      · exact cell_spread_row hd ((applyFault?_eq_none_iff.1 hfault).2 hd) f

theorem Fits.apply {t' : Tape} (h : t.Fits) (hp : t'.pointer = t.pointer) (hs : t.size ≤ t'.size) :
    t'.Fits := by
  unfold Fits at h ⊢
  omega

end Tape

/-! ### The invariant -/

/-- The tape is as it has to be to go on at `k`: a run has a cell to start from, the body of a loop
with a mark is not entered, and its closing bracket is only reached on a zero cell. -/
structure Arrived (code : Array Instruction) (k : Nat) (t : Tape) : Prop where
  run : ∀ i : Instruction, code[k]? = some i → i.kind = .run → 0 ≤ t.pointer
  not_body : ∀ (j : Nat) (loop : Instruction), code[j]? = some loop → ¬ loop.Unmarked → k ≠ j + 1
  at_close : ∀ (j : Nat) (loop : Instruction), code[j]? = some loop → ¬ loop.Unmarked → k = j + 2 →
    0 ≤ t.pointer ∧ t.cell t.pointer = 0

namespace Machine

/-- Where a machine stands between two steps: about to execute an instruction, or in the loop that
opens at its cursor. A linear loop is under way only if its control cell is no positive multiple of
its factor. -/
inductive Stands (code : Array Instruction) (m : Machine) : Prop
  | dispatch {k : Nat} (hf : m.focus = .dispatch) (hc : m.cursor = k) (hk : k ≤ code.size)
      (ha : Arrived code k m.tape)
  | iterate {k : Nat} {loop body close : Instruction} {f : Int}
      (hl : SoleLoop code k loop body close) (hm : loop.linearFactor = some f)
      (hf : m.focus = .iterate body loop.jumpTarget) (hc : m.cursor = k) (hp : 0 ≤ m.tape.pointer)
      (hn : ¬ (0 < m.tape.cell m.tape.pointer ∧ m.tape.cell m.tape.pointer % f = 0))
  | scan {k : Nat} {loop body close : Instruction} {d : Int}
      (hl : SoleLoop code k loop body close) (hm : loop.scanStep = some d)
      (hf : m.focus = .scan d loop.jumpTarget) (hc : m.cursor = k)

/-- What holds between any two steps of a compiled program. -/
structure Orderly (code : Array Instruction) (m : Machine) : Prop where
  fits : m.tape.Fits
  stands : Stands code m

/-- The machine is about to count a step: there is an instruction at its cursor, and a loop that is
under way is not to be left. -/
structure Poised (code : Array Instruction) (m : Machine) : Prop extends Orderly code m where
  cursor_lt : m.cursor < code.size
  under_way : m.focus ≠ .dispatch → 0 ≤ m.tape.pointer ∧ m.tape.cell m.tape.pointer ≠ 0

/-- What may come of an action. A fault leaves all but the input as it was, and a read is interrupted
only if that was provided for. -/
inductive Acts (code : Array Instruction) (m : Machine) : EStateM.Result Fault Machine Unit → Prop
  | ok {m' : Machine} (ho : Orderly code m')
      (hin : m.input.allowance = none → m'.input.allowance = none) : Acts code m (.ok () m')
  | underflow (j : Int) (input : Input) : Acts code m (.error (.underflow j) { m with input })
  | interrupted (ha : m.input.allowance ≠ none) : Acts code m (.error .interrupted m)

/-- What may come of settling what there is to do. Only a scan that has left the tape faults. -/
inductive Settles (code : Array Instruction) (m : Machine) :
    EStateM.Result Fault Machine Bool → Prop
  | ready (h : Poised code m) : Settles code m (.ok true m)
  | left {k : Nat} {loop body close : Instruction} (hf : m.focus ≠ .dispatch)
      (hl : SoleLoop code k loop body close) (hm : ¬ loop.Unmarked) (hp : 0 ≤ m.tape.pointer)
      (hv : m.tape.cell m.tape.pointer = 0)
      (h : Poised code { m with cursor := (k + 2 : Nat), focus := .dispatch }) :
      Settles code m (.ok true { m with cursor := (k + 2 : Nat), focus := .dispatch })
  | finished (hf : m.focus = .dispatch) (hc : code.size ≤ m.cursor) : Settles code m (.ok false m)
  | underflow (hp : m.tape.pointer < 0) (hf : m.focus ≠ .dispatch) :
      Settles code m (.error (.underflow m.tape.pointer) m)

end Machine

open Machine

variable {code : Array Instruction} {m m' : Machine} {k : Nat} {i loop body close : Instruction}
  {t t' : Tape}

/-! ### Where the cursor comes to -/

theorem arrived_at_start (code : Array Instruction) (size : Int) : Arrived code 0 (.blank size) := by
  refine ⟨?_, ?_, ?_⟩
  · intro i _ _
    exact Int.le_refl 0
  · intro j loop _ _ h
    omega
  · intro j loop _ _ h
    omega

/-- To the next instruction, from one without a mark. -/
theorem Arrived.next (h : Arrived code k t) (hs : Shape code) (hi : code[k]? = some i)
    (hu : i.Unmarked) (hp : i.kind ≠ .run → 0 ≤ t'.pointer) : Arrived code (k + 1) t' := by
  refine ⟨?_, ?_, ?_⟩
  · intro j hj hrun
    by_cases hk : i.kind = .run
    · exact absurd hrun (hs.apart k i j hi hj hk)
    · exact hp hk
  · intro j loop hj hl hkj
    obtain rfl : k = j := by omega
    obtain rfl := Option.some.inj (hi.symm.trans hj)
    exact hl hu
  · intro j loop hj hl hkj
    exact absurd (show k = j + 1 by omega) (h.not_body j loop hj hl)

/-- To a loop instruction, with a zero cell if it is a closing bracket. -/
theorem arrived_at_loop (hm : Marked code) (hi : code[k]? = some i) (hk : i.isLoop = true)
    (hz : i.kind = .loopClose → 0 ≤ t.pointer ∧ t.cell t.pointer = 0) : Arrived code k t := by
  have hrun : i.kind ≠ .run := by
    intro h
    simp [Instruction.isLoop, h] at hk
  refine ⟨?_, ?_, ?_⟩
  · intro j hj hr
    obtain rfl := Option.some.inj (hi.symm.trans hj)
    exact absurd hr hrun
  · rintro j loop hj hl rfl
    obtain ⟨body, close, hsole⟩ := hm.exists_sole hj hl
    obtain rfl := Option.some.inj (hi.symm.trans hsole.body_at)
    exact hrun hsole.body_kind
  · rintro j loop hj hl rfl
    obtain ⟨body, close, hsole⟩ := hm.exists_sole hj hl
    obtain rfl := Option.some.inj (hi.symm.trans hsole.close_at)
    exact hz hsole.close_kind

theorem Marked.unmarked_of_kind (hm : Marked code) (hi : code[k]? = some i)
    (hk : i.kind ≠ .loopOpen) : i.Unmarked := by
  by_contra hu
  obtain ⟨body, close, hsole⟩ := hm.exists_sole hi hu
  exact hk hsole.loop_kind

namespace Machine

theorem orderly_start (code : Array Instruction) (settings : Settings) (input : Input)
    (output : Output) : Orderly code (.start settings input output) :=
  ⟨Tape.fits_blank _, .dispatch rfl rfl (Nat.zero_le _) (arrived_at_start code _)⟩

/-- The counters play no part. -/
theorem Orderly.congr (h : Orderly code m) (ht : m'.tape = m.tape) (hc : m'.cursor = m.cursor)
    (hf : m'.focus = m.focus) : Orderly code m' := by
  refine ⟨ht ▸ h.fits, ?_⟩
  cases h.stands with
  | dispatch hf' hc' hk ha => exact .dispatch (hf.trans hf') (hc.trans hc') hk (ht ▸ ha)
  | iterate hl hm hf' hc' hp hn =>
    rw [← ht] at hp hn
    exact .iterate hl hm (hf.trans hf') (hc.trans hc') hp hn
  | scan hl hm hf' hc' => exact .scan hl hm (hf.trans hf') (hc.trans hc')

theorem Poised.ticked (h : Poised code m) : Poised code m.ticked :=
  ⟨h.toOrderly.congr rfl rfl rfl, h.cursor_lt, h.under_way⟩

/-! ### Settling -/

theorem Orderly.settles (h : Orderly code m) (hm : Marked code) :
    Settles code m (settle code m) := by
  -- of a loop under way only the exit and the place matter
  have hloop {k : Nat} {loop body close : Instruction} (hl : SoleLoop code k loop body close)
      (hu : ¬ loop.Unmarked) (hf : m.focus.exit? = some loop.jumpTarget) (hc : m.cursor = k) :
      Settles code m (settle code m) := by
    have hne : m.focus ≠ .dispatch := by
      intro hd
      rw [hd] at hf
      cases hf
    have hexit := hf.trans (congrArg some hl.loop_target)
    rcases Int.lt_or_le m.tape.pointer 0 with hp | hp
    · rw [settle_of_neg hexit hp]
      exact .underflow hp hne
    · have hlt := (Array.getElem?_eq_some_iff.1 hl.close_at).1
      by_cases hv : m.tape.cell m.tape.pointer = 0
      · rw [settle_of_zero hexit hp hv, h.fits.grow_eq hp, decide_eq_true (by omega)]
        have ha : Arrived code (k + 2) m.tape :=
          arrived_at_loop hm hl.close_at (by simp [Instruction.isLoop, hl.close_kind])
            fun _ => ⟨hp, hv⟩
        refine .left hne hl hu hp hv ⟨⟨h.fits, .dispatch rfl rfl (Nat.le_of_lt hlt) ha⟩, ?_, ?_⟩
        · exact Int.ofNat_lt.2 hlt
        · intro hd
          exact absurd rfl hd
      · have hsize : m.cursor < code.size := by omega
        rw [settle_of_ne_zero hexit hp hv, h.fits.grow_eq hp, decide_eq_true hsize]
        exact .ready ⟨h, hsize, fun _ => ⟨hp, hv⟩⟩
  cases h.stands with
  | dispatch hf hc hk ha =>
    rw [settle_of_dispatch hf]
    by_cases hlt : m.cursor < code.size
    · rw [decide_eq_true hlt]
      exact .ready ⟨h, hlt, fun hd => absurd hf hd⟩
    · rw [decide_eq_false hlt]
      exact .finished hf (Int.not_lt.1 hlt)
  | iterate hl hm' hf hc hp hn =>
    refine hloop hl ?_ (by rw [hf]; rfl) hc
    rintro ⟨hf', -⟩
    rw [hm'] at hf'
    cases hf'
  | scan hl hm' hf hc =>
    refine hloop hl ?_ (by rw [hf]; rfl) hc
    rintro ⟨-, hd⟩
    rw [hm'] at hd
    cases hd

/-! ### One instruction -/

theorem runOn_cases (h : t.Fits) (hp : 0 ≤ t.pointer) (i : Instruction) :
    (∃ j, runOn i t = .error (.leftOfFirst j) t) ∨ ∃ t', runOn i t = .ok () t' ∧ t'.Fits := by
  rcases Tape.apply_cases i.deltas i.baseOffset 1 i.minOffset t with
    ⟨j, ha⟩ | ⟨t', ha, hp', hs, -⟩
  · exact .inl ⟨j, bind_of_error ha⟩
  · obtain ⟨t'', hshift, hfits⟩ := (h.apply hp' hs).exists_shift (by omega) i.netShift
    exact .inr ⟨t'', (bind_of_ok ha).trans hshift, hfits⟩

/-- A linear loop is evaluated in one go, and its control cell is zero then, or it is under way. -/
theorem acts_linear {f : Int} (h : m.tape.Fits) (hc : m.cursor = k) (hm : Marked code)
    (hl : i.linearFactor = some f) (hsole : SoleLoop code k i body close)
    (hdelta : body.deltaAt 0 = -f) (hp : 0 ≤ m.tape.pointer) :
    Acts code m (openLinear i body f (m.tape.cell m.tape.pointer) m) := by
  unfold openLinear
  split
  · rename_i hmul
    rcases Tape.apply_cases body.deltas body.baseOffset (m.tape.cell m.tape.pointer / f)
      body.minOffset m.tape with ⟨j, happ⟩ | ⟨t, happ, hp', hsize, hcell⟩
    · rw [bind_of_error (onTape_of_error happ)]
      exact .underflow j m.input
    · have hzero : t.cell t.pointer = 0 := by
        have hmod := Int.mul_ediv_add_emod (m.tape.cell m.tape.pointer) f
        rw [hp', hcell, Int.sub_self, ← Instruction.deltaAt_eq, hdelta, Int.mul_neg,
          Int.mul_comm _ f]
        omega
      have hlt := (Array.getElem?_eq_some_iff.1 hsole.close_at).1
      rw [bind_of_ok (onTape_of_ok happ), hsole.loop_target]
      refine .ok ⟨h.apply hp' hsize, .dispatch rfl rfl (Nat.le_of_lt hlt) ?_⟩ id
      refine arrived_at_loop hm hsole.close_at (by simp [Instruction.isLoop, hsole.close_kind])
        fun _ => ⟨?_, hzero⟩
      show 0 ≤ t.pointer
      omega
  · rename_i hmul
    exact .ok ⟨h, .iterate hsole hl rfl hc hp hmul⟩ id

section
variable (hf : m.focus = .dispatch) (hc : m.cursor = k) (ha : Arrived code k m.tape)
  (hi : code[k]? = some i) (hs : Shape code)
include hf hc ha hi hs

/-- The instruction at `k` is done with. -/
theorem orderly_next (hu : i.Unmarked) (hfits : m'.tape.Fits)
    (hp : i.kind ≠ .run → 0 ≤ m'.tape.pointer) (hc' : m'.cursor = m.cursor + 1)
    (hf' : m'.focus = m.focus) : Orderly code m' := by
  have hlt := (Array.getElem?_eq_some_iff.1 hi).1
  refine ⟨hfits, .dispatch (hf'.trans hf) ?_ hlt (ha.next hs hi hu hp)⟩
  rw [hc', hc]
  rfl

variable (h : m.tape.Fits) (hm : Marked code)
include h hm

theorem acts_run (hk : i.kind = .run) : Acts code m (applyRun i m) := by
  have hu := hm.unmarked_of_kind hi (by rw [hk]; nofun)
  rcases runOn_cases h (ha.run i hi hk) i with ⟨j, hr⟩ | ⟨t, hr, hfits⟩
  · rw [applyRun_of_error hr]
    exact .underflow j m.input
  · rw [applyRun_of_ok hr]
    exact .ok (orderly_next hf hc ha hi hs hu hfits (fun hne => absurd hk hne) rfl rfl) id

theorem acts_read (hk : i.kind = .read) :
    Acts code m ((do readCell; advance : Execution Unit) m) := by
  have hu := hm.unmarked_of_kind hi (by rw [hk]; nofun)
  match hin : m.input.read with
  | .error .interrupted input =>
    have hsame : input = m.input ∧ m.input.allowance ≠ none := by
      unfold Input.read at hin
      split at hin
      · cases hin
        exact ⟨rfl, by simp_all⟩
      · split at hin <;> cases hin
    rw [bind_of_error (readCell_of_interrupt hin), hsame.1]
    exact .interrupted hsame.2
  | .ok b input =>
    rcases Int.lt_or_le m.tape.pointer 0 with hp | hp
    · rw [bind_of_error (readCell_of_neg hin hp)]
      exact .underflow _ input
    · rw [bind_of_ok (readCell_of_nonneg hin hp)]
      refine .ok (orderly_next hf hc ha hi hs hu (h.put _) (fun _ => ?_) rfl rfl) fun hnone => ?_
      · show 0 ≤ (m.tape.put _).pointer
        rwa [Tape.pointer_put]
      · show input.allowance = none
        unfold Input.read at hin
        split at hin
        · cases hin
        · split at hin
          · cases hin
            simp [hnone]
          · cases hin
            simp [hnone]

theorem acts_write (hk : i.kind = .write) :
    Acts code m ((do writeCell; advance : Execution Unit) m) := by
  have hu := hm.unmarked_of_kind hi (by rw [hk]; nofun)
  rcases Int.lt_or_le m.tape.pointer 0 with hp | hp
  · rw [bind_of_error (writeCell_of_neg hp)]
    exact .underflow _ m.input
  · rw [bind_of_ok (writeCell_of_nonneg hp), h.grow_eq hp]
    exact .ok (orderly_next hf hc ha hi hs hu h (fun _ => hp) rfl rfl) id

theorem acts_close (hk : i.kind = .loopClose) : Acts code m (closeLoop i m) := by
  have hu := hm.unmarked_of_kind hi (by rw [hk]; nofun)
  rcases Int.lt_or_le m.tape.pointer 0 with hp | hp
  · rw [closeLoop_of_neg hp]
    exact .underflow _ m.input
  · by_cases hv : m.tape.cell m.tape.pointer = 0
    · rw [closeLoop_of_zero hp hv, h.grow_eq hp]
      exact .ok (orderly_next hf hc ha hi hs hu h (fun _ => hp) rfl rfl) id
    · obtain ⟨j, ht, hl⟩ := hs.loopAt_of_close hi hk
      obtain ⟨a, ha', hak, -⟩ := hl.opens
      have hlt := (Array.getElem?_eq_some_iff.1 ha').1
      rw [closeLoop_of_ne_zero ht hp hv, h.grow_eq hp]
      refine .ok ⟨h, .dispatch rfl rfl (Nat.le_of_lt hlt) ?_⟩ id
      refine arrived_at_loop hm ha' (by simp [Instruction.isLoop, hak]) fun hclose => ?_
      rw [hak] at hclose
      cases hclose

theorem acts_open (hk : i.kind = .loopOpen) : Acts code m (openLoop code i m) := by
  rcases Int.lt_or_le m.tape.pointer 0 with hp | hp
  · rw [openLoop_of_neg hp]
    exact .underflow _ m.input
  · by_cases hv : m.tape.cell m.tape.pointer = 0
    · obtain ⟨j, ht, hl⟩ := hs.opens k i hi hk
      obtain ⟨b, hb, hbk, -⟩ := hl.closes
      have hlt := (Array.getElem?_eq_some_iff.1 hb).1
      rw [openLoop_of_zero ht hp hv, h.grow_eq hp]
      exact .ok ⟨h, .dispatch rfl rfl (Nat.le_of_lt hlt)
        (arrived_at_loop hm hb (by simp [Instruction.isLoop, hbk]) fun _ => ⟨hp, hv⟩)⟩ id
    · cases hl : i.linearFactor with
      | some f =>
        obtain ⟨-, -, body, close, hsole, -, hdelta⟩ := hm.linear hi hl
        have hfetch : fetch? code (m.cursor + 1) = some body := by
          rw [fetch?, if_pos (by omega), hc]
          exact hsole.body_at
        rw [openLoop_of_factor hl hfetch hp hv, h.grow_eq hp]
        exact acts_linear h hc hm hl hsole hdelta hp
      | none =>
        cases hd : i.scanStep with
        | some d =>
          obtain ⟨-, -, body, close, hsole, -⟩ := hm.scan hi hd
          rw [openLoop_of_ne_zero hp hv, hl, hd, h.grow_eq hp]
          exact .ok ⟨h, .scan hsole hd rfl hc⟩ id
        | none =>
          rw [openLoop_of_unmarked ⟨hl, hd⟩ hp hv, h.grow_eq hp]
          exact .ok (orderly_next hf hc ha hi hs ⟨hl, hd⟩ h (fun _ => hp) rfl rfl) id

theorem acts_execute : Acts code m (execute code i m) := by
  rw [execute]
  cases hk : i.kind with
  | run => exact acts_run hf hc ha hi hs h hm hk
  | loopOpen => exact acts_open hf hc ha hi hs h hm hk
  | loopClose => exact acts_close hf hc ha hi hs h hm hk
  | read => exact acts_read hf hc ha hi hs h hm hk
  | write => exact acts_write hf hc ha hi hs h hm hk

end

/-! ### One step -/

/-- One more pass keeps the control cell from becoming a positive multiple of the factor. -/
theorem acts_pass {f : Int} {exit : Option Int} (h : m.tape.Fits)
    (hsole : SoleLoop code k loop body close) (hl : loop.linearFactor = some f)
    (hdelta : body.deltaAt 0 = -f) (hpos : 0 < f) (hfocus : m.focus = .iterate body exit)
    (hexit : exit = loop.jumpTarget) (hc : m.cursor = k) (hp : 0 ≤ m.tape.pointer)
    (hn : ¬ (0 < m.tape.cell m.tape.pointer ∧ m.tape.cell m.tape.pointer % f = 0)) :
    Acts code m (passOf m.focus m) := by
  subst hexit
  rw [hfocus]
  rcases Tape.apply_cases body.deltas body.baseOffset 1 body.minOffset m.tape with
    ⟨j, happ⟩ | ⟨t, happ, hp', hsize, hcell⟩
  · rw [passOf, bind_of_error (onTape_of_error happ)]
    exact .underflow j m.input
  · rw [passOf, bind_of_ok (onTape_of_ok happ)]
    have hless : t.cell t.pointer = m.tape.cell m.tape.pointer - f := by
      rw [hp', hcell, Int.sub_self, ← Instruction.deltaAt_eq, hdelta]
      omega
    refine .ok ⟨h.apply hp' hsize, .iterate hsole hl hfocus hc ?_ ?_⟩ id
    · show 0 ≤ t.pointer
      omega
    · show ¬ (0 < t.cell t.pointer ∧ t.cell t.pointer % f = 0)
      rw [hless, Int.sub_emod_right]
      omega

theorem Poised.acts (h : Poised code m) (hs : Shape code) (hm : Marked code) :
    Acts code m (act code m) := by
  cases h.stands with
  | @dispatch k hf hc hk ha =>
    have hlt : k < code.size := by
      have := h.cursor_lt
      omega
    have hi : code[k]? = some code[k] := Array.getElem?_eq_getElem hlt
    have hfetch : fetch? code m.cursor = some code[k] := by
      rw [fetch?, if_pos (by omega), hc]
      exact hi
    rw [act_of_dispatch hf hfetch]
    exact acts_execute hf hc ha hi hs h.fits hm
  | iterate hl hf hfocus hc hp hn =>
    obtain ⟨-, hpos, body', close', hl', -, hdelta⟩ := hm.linear hl.loop_at hf
    obtain rfl := Option.some.inj (hl.body_at.symm.trans hl'.body_at)
    rw [act_of_loop (by rw [hfocus]; rfl)]
    exact acts_pass h.fits hl hf hdelta hpos hfocus rfl hc hp hn
  | @scan k loop body close d hl hd hfocus hc =>
    have hp := (h.under_way (by simp [hfocus])).1
    obtain ⟨t, hshift, hfits⟩ := h.fits.exists_shift hp d
    rw [act_of_loop (by rw [hfocus]; rfl), hfocus, passOf, bind_of_ok (onTape_of_ok hshift)]
    exact .ok ⟨hfits, .scan hl hd hfocus hc⟩ id

theorem Orderly.poised (h : Orderly code m) (hm : Marked code) (hr : settle code m = .ok true m') :
    Poised code m' := by
  have hs := h.settles hm
  rw [hr] at hs
  cases hs with
  | ready h => exact h
  | left _ _ _ _ _ h => exact h

/-- There is nothing left to settle. -/
theorem Poised.settle_eq (h : Poised code m) (hm : Marked code) : settle code m = .ok true m := by
  have hs := h.settles hm
  match hr : settle code m, hs with
  | _, .ready _ => rfl
  | _, .left hf _ _ _ hv _ => exact absurd hv (h.under_way hf).2
  | _, .finished _ hc => exact absurd h.cursor_lt (Int.not_lt.2 hc)
  | _, .underflow hp hf => exact absurd hp (Int.not_lt.2 (h.under_way hf).1)

/-- A loop under way is left alone, its place is still one to go on at. -/
theorem Orderly.dispatch (h : Orderly code m) (hm : Marked code) :
    Orderly code { m with focus := .dispatch } := by
  have hloop {k : Nat} {loop body close : Instruction} (hl : SoleLoop code k loop body close)
      (hc : m.cursor = k) : Orderly code { m with focus := .dispatch } := by
    have hlt := (Array.getElem?_eq_some_iff.1 hl.loop_at).1
    refine ⟨h.fits, .dispatch rfl hc (Nat.le_of_lt hlt) ?_⟩
    refine arrived_at_loop hm hl.loop_at (by simp [Instruction.isLoop, hl.loop_kind]) ?_
    intro hk
    rw [hl.loop_kind] at hk
    cases hk
  cases h.stands with
  | dispatch hf hc hk ha => exact ⟨h.fits, .dispatch rfl hc hk ha⟩
  | iterate hl _ _ hc => exact hloop hl hc
  | scan hl _ _ hc => exact hloop hl hc

theorem Orderly.of_step (h : Orderly code m) (hs : Shape code) (hm : Marked code)
    (hstep : step code m = .ok true m') : Orderly code m' := by
  rw [step_eq_counted] at hstep
  obtain ⟨m₁, hr, -, hact⟩ := exists_of_counted_ok hstep
  have ha := (h.poised hm hr).ticked.acts hs hm
  rw [hact] at ha
  cases ha with
  | ok ho => exact ho

/-- Whatever a run comes to is orderly. -/
theorem Orderly.of_walk {n : Nat} (h : Orderly code m) (hs : Shape code) (hm : Marked code)
    (hw : Walk (step code) n m m') : Orderly code m' := by
  induction hw with
  | refl => exact h
  | cons hstep _ ih => exact ih (h.of_step hs hm hstep)

/-- So is what it ends with. -/
theorem Orderly.of_stops {e : Ending} (h : Orderly code m) (hs : Shape code) (hm : Marked code)
    (hstop : Stops (step code) m e) : Orderly code e.machine := by
  rw [step_eq_counted] at hstop
  cases hstop with
  | finished hstep =>
    have hset := h.settles hm
    rw [ready_of_counted_false hstep] at hset
    cases hset
    exact h
  | faulted hstep =>
    rcases exists_of_counted_error hstep with hr | ⟨m₁, hr, ⟨limit, -, -, rfl⟩ | hact⟩
    · have hset := h.settles hm
      rw [hr] at hset
      cases hset
      exact h
    · exact (h.poised hm hr).ticked.toOrderly
    · have hp := (h.poised hm hr).ticked
      have ha := hp.acts hs hm
      rw [hact] at ha
      cases ha with
      | underflow j input => exact hp.toOrderly.congr rfl rfl rfl
      | interrupted => exact hp.toOrderly

theorem Orderly.of_iterate (h : Orderly code m) (hs : Shape code) (hm : Marked code) (k : Nat) :
    Orderly code (iterate (step code) k m).machine := by
  by_cases hu : (iterate (step code) k m).halt = .unfinished
  · exact h.of_walk hs hm (walk_of_iterate_unfinished hu)
  · obtain ⟨n, m', -, hw, hstop⟩ := exists_walk_of_iterate rfl hu
    exact (h.of_walk hs hm hw).of_stops hs hm hstop

/-- The cursor is in the code or just after it. -/
theorem Orderly.cursor_mem (h : Orderly code m) : 0 ≤ m.cursor ∧ m.cursor ≤ code.size := by
  cases h.stands with
  | dispatch _ hc hk => omega
  | iterate hl _ _ hc =>
    have := (Array.getElem?_eq_some_iff.1 hl.loop_at).1
    omega
  | scan hl _ _ hc =>
    have := (Array.getElem?_eq_some_iff.1 hl.loop_at).1
    omega

end Machine

end TapeFold
