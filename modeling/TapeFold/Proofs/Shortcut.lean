import TapeFold.Proofs.Clock
import TapeFold.Proofs.Passes
import TapeFold.Proofs.Places

/-!
# Shortcuts

Code with marks runs next to the same code without some of them. The loop that a mark stands on is
taken in one go by the one and pass by pass by the other; both come out of it with the same tape, and
the shortcut takes no more steps (`Machine.simulates_shed`).
-/

namespace TapeFold

/-- The instruction without its factor, and without its scan mark if `scans` is set. -/
def Instruction.shed (scans : Bool) (i : Instruction) : Instruction :=
  if scans then i.unmarked else i.withFactor none

/-- What one more pass of a loop under way does to a tape. -/
def Focus.pass : Focus → TapeAction Unit
  | .dispatch => pure ()
  | .iterate body _ => Tape.apply body.deltas body.baseOffset 1 body.minOffset
  | .scan step _ => Tape.shift step

/-- The code without the marks that are shed. -/
def shedCode (code : Array Instruction) (scans : Bool) : Array Instruction :=
  code.map (·.shed scans)

section
variable {code : Array Instruction} {i : Instruction} {k : Nat} {scans : Bool}

theorem getElem?_shedCode (h : code[k]? = some i) : (shedCode code scans)[k]? = some (i.shed scans) := by
  rw [shedCode, Array.getElem?_map, h]
  rfl

namespace Instruction

@[simp] theorem kind_shed : (i.shed scans).kind = i.kind := by
  cases scans <;> rfl

@[simp] theorem jumpTarget_shed : (i.shed scans).jumpTarget = i.jumpTarget := by
  cases scans <;> rfl

@[simp] theorem netShift_shed : (i.shed scans).netShift = i.netShift := by
  cases scans <;> rfl

@[simp] theorem deltas_shed : (i.shed scans).deltas = i.deltas := by
  cases scans <;> rfl

@[simp] theorem baseOffset_shed : (i.shed scans).baseOffset = i.baseOffset := by
  cases scans <;> rfl

@[simp] theorem minOffset_shed : (i.shed scans).minOffset = i.minOffset := by
  cases scans <;> rfl

theorem deltaAt_shed (q : Int) : (i.shed scans).deltaAt q = i.deltaAt q := by
  cases scans <;> rfl

theorem shed_eq_self (hf : i.linearFactor = none) (hs : scans = true → i.scanStep = none) :
    i.shed scans = i := by
  cases scans with
  | false => exact congrArg i.withFactor hf.symm
  | true =>
    exact (congrArg (fun o => (i.withFactor o).withScan none) hf.symm).trans
      (congrArg i.withScan (hs rfl).symm)

end Instruction

theorem SoleLoop.shed {loop body close : Instruction} (h : SoleLoop code k loop body close)
    (scans : Bool) :
    SoleLoop (shedCode code scans) k (loop.shed scans) (body.shed scans) (close.shed scans) := by
  refine ⟨getElem?_shedCode h.loop_at, ?_, ?_, getElem?_shedCode h.body_at, ?_,
    getElem?_shedCode h.close_at, ?_, ?_⟩
  · rw [Instruction.kind_shed, h.loop_kind]
  · rw [Instruction.jumpTarget_shed, h.loop_target]
  · rw [Instruction.kind_shed, h.body_kind]
  · rw [Instruction.kind_shed, h.close_kind]
  · rw [Instruction.jumpTarget_shed, h.close_target]

end

namespace Machine

variable {code : Array Instruction} {m m' c c' : Machine} {k n : Nat} {i loop body close : Instruction}
  {t : Tape} {f : Fault}

/-! ### Passes -/

theorem passOf_of_ok {F : Focus} {exit : Option Int} (hf : F.exit? = some exit)
    (h : F.pass m.tape = .ok () t) :
    ∃ b s, passOf F m = .ok () { m with tape := t, fallbackPasses := b, scanPasses := s } := by
  cases F with
  | dispatch => cases hf
  | iterate body _ =>
    have h' : Tape.apply body.deltas body.baseOffset 1 body.minOffset m.tape = .ok () t := h
    exact ⟨_, _, bind_of_ok (onTape_of_ok h')⟩
  | scan d _ =>
    have h' : Tape.shift d m.tape = .ok () t := h
    exact ⟨_, _, bind_of_ok (onTape_of_ok h')⟩

theorem passOf_of_error {F : Focus} {exit : Option Int} {j : Int} (hf : F.exit? = some exit)
    (h : F.pass m.tape = .error (.leftOfFirst j) t) :
    passOf F m = .error (.underflow j) { m with tape := t } := by
  cases F with
  | dispatch => cases hf
  | iterate body _ =>
    have h' : Tape.apply body.deltas body.baseOffset 1 body.minOffset m.tape =
      .error (.leftOfFirst j) t := h
    exact bind_of_error (onTape_of_error h')
  | scan d _ =>
    have h' : Tape.shift d m.tape = .error (.leftOfFirst j) t := h
    exact bind_of_error (onTape_of_error h')

/-! ### The relation between the runs -/

/-- The first machine is as far as the second, which has not counted more steps. -/
structure Level (m c : Machine) : Prop where
  tape : m.tape = c.tape
  input : m.input = c.input
  output : m.output = c.output
  eofValue : m.eofValue = c.eofValue
  unlimited : m.maxSteps = none
  unlimited' : c.maxSteps = none
  steps : c.steps ≤ m.steps

theorem Level.grow (h : Level m c) :
    m.tape.grow m.tape.pointer.toNat = c.tape.grow c.tape.pointer.toNat := by
  rw [h.tape]

theorem Level.underflow (h : Level m c) :
    Halt.faulted (.underflow m.tape.pointer) = .faulted (.underflow c.tape.pointer) := by
  rw [h.tape]

/-- The machine `c` is in the loop at `k`, passes of which do what `body` does. -/
structure InLoop (code : Array Instruction) (scans : Bool) (k : Nat)
    (loop body close : Instruction) (c : Machine) : Prop where
  sole : SoleLoop code k loop body close
  shed : (loop.shed scans).Unmarked
  exit : c.focus.exit? = some (some ((k + 2 : Nat) : Int))
  pass : ∀ t, c.focus.pass t = runOn body t
  cursor : c.cursor = k

/-- The machines are about to do the same, or the second is in a loop that the first takes pass by
pass, at its closing bracket. -/
inductive Synced (code : Array Instruction) (scans : Bool) (m c : Machine) : Prop
  | same (hl : Level m c) (hc : m.cursor = c.cursor) (hf : m.focus = c.focus) (hp : Placed m)
  | loop {k : Nat} {loop body close : Instruction} (hl : Level m c)
      (ho : InLoop code scans k loop body close c) (hf : m.focus = .dispatch)
      (hc : m.cursor = (k + 2 : Nat))

/-- The runs have come to the same end, the second in no more steps. -/
structure SameEnd (e e' : Ending) : Prop where
  halt : e.halt = e'.halt
  tape : e.machine.tape = e'.machine.tape
  input : e.machine.input = e'.machine.input
  output : e.machine.output = e'.machine.output
  steps : e'.machine.steps ≤ e.machine.steps

variable {scans : Bool}

theorem runOn_shed (scans : Bool) (i : Instruction) : runOn (i.shed scans) = runOn i := by
  cases scans <;> rfl

/-- A loop under way that is left is left before the next step. -/
theorem step_of_zero {target : Int} (h : c.focus.exit? = some (some target))
    (hp : 0 ≤ c.tape.pointer) (hv : c.tape.cell c.tape.pointer = 0) :
    step code c = step code { c with
      tape := c.tape.grow c.tape.pointer.toNat, cursor := target, focus := .dispatch } := by
  rw [step_eq_counted, counted, bind_of_ok (settle_of_zero h hp hv), bind_of_ok (settle_of_dispatch rfl)]

/-! ### Inside a loop -/

/-- One more pass, which one run makes by executing the body and the other as it is in the loop. -/
theorem InLoop.block_of_body (ho : InLoop code scans k loop body close c)
    (hl : Level m { c with tape := c.tape.grow c.tape.pointer.toNat }) (hf : m.focus = .dispatch)
    (hc : m.cursor = (k + 1 : Nat)) (hp : 0 ≤ c.tape.pointer)
    (hv : c.tape.cell c.tape.pointer ≠ 0) :
    Block (step (shedCode code scans)) (step code) (Synced code scans) SameEnd m c := by
  have hs := ho.sole.shed scans
  have hsize : c.cursor < code.size := by
    have := (Array.getElem?_eq_some_iff.1 ho.sole.loop_at).1
    rw [ho.cursor]
    omega
  have htape : m.tape = c.tape.grow c.tape.pointer.toNat := hl.tape
  have hsettle : settle code c = .ok true { c with tape := m.tape } := by
    rw [settle_of_ne_zero ho.exit hp hv, decide_eq_true hsize, htape]
  have hact : act code { c with tape := m.tape }.ticked =
      passOf c.focus { c with tape := m.tape }.ticked := act_of_loop ho.exit
  have hsteps := Nat.succ_le_succ hl.steps
  match ht : runOn body m.tape with
  | .ok () t =>
    obtain ⟨b, s, hpo⟩ := passOf_of_ok (m := { c with tape := m.tape }.ticked) ho.exit
      ((ho.pass m.tape).trans ht)
    have hcstep : step code c = .ok true { { c with tape := m.tape }.ticked with
        tape := t, fallbackPasses := b, scanPasses := s } := by
      rw [step_eq_counted, counted_of_ready hsettle hl.unlimited', hact, hpo]
    have hmstep := step_body hs hf hl.unlimited hc ((congrFun (runOn_shed scans body) _).trans ht)
    have ho' : InLoop code scans k loop body close { { c with tape := m.tape }.ticked with
        tape := t, fallbackPasses := b, scanPasses := s } :=
      ⟨ho.sole, ho.shed, ho.exit, ho.pass, ho.cursor⟩
    exact .on (.single hmstep) (.single hcstep) .zero (.loop ⟨rfl, hl.input, hl.output, hl.eofValue,
      hl.unlimited, hl.unlimited', hsteps⟩ ho' rfl rfl)
  | .error (.leftOfFirst j) t =>
    have hpo := passOf_of_error (m := { c with tape := m.tape }.ticked) ho.exit
      ((ho.pass m.tape).trans ht)
    have hcstep : step code c = .error (.underflow j) { { c with tape := m.tape }.ticked with
        tape := t } := by
      rw [step_eq_counted, counted_of_ready hsettle hl.unlimited', hact, hpo]
    have hat : At (shedCode code scans) m (k + 1) (body.shed scans) :=
      ⟨hf, hc, hs.body_at, hl.unlimited⟩
    have hmstep := hat.stops_run hs.body_kind ((congrFun (runOn_shed scans body) _).trans ht)
    exact .stop .refl .refl .zero hmstep (.faulted hcstep) ⟨rfl, rfl, hl.input, hl.output, hsteps⟩

/-- At the closing bracket of a loop that one run takes pass by pass. -/
theorem InLoop.block (ho : InLoop code scans k loop body close c) (hl : Level m c)
    (hf : m.focus = .dispatch) (hc : m.cursor = (k + 2 : Nat)) :
    Block (step (shedCode code scans)) (step code) (Synced code scans) SameEnd m c := by
  have hs := ho.sole.shed scans
  have hat : At (shedCode code scans) m (k + 2) (close.shed scans) :=
    ⟨hf, hc, hs.close_at, hl.unlimited⟩
  have htape := hl.tape
  rcases Int.lt_or_le m.tape.pointer 0 with hp | hp
  · have hp' : c.tape.pointer < 0 := htape ▸ hp
    have hcstep : step code c = .error (.underflow c.tape.pointer) c :=
      counted_of_ready_error (settle_of_neg ho.exit hp')
    exact .stop .refl .refl .zero (hat.stops_close_of_neg hs.close_kind hp) (.faulted hcstep)
      ⟨hl.underflow, htape, hl.input, hl.output, Nat.le_succ_of_le hl.steps⟩
  · have hp' : 0 ≤ c.tape.pointer := htape ▸ hp
    by_cases hv : m.tape.cell m.tape.pointer = 0
    · -- the loop is left: the second run is as if at the closing bracket
      have hv' : c.tape.cell c.tape.pointer = 0 := htape ▸ hv
      have hat' : At code { c with
          tape := c.tape.grow c.tape.pointer.toNat, cursor := (k + 2 : Nat), focus := .dispatch }
          (k + 2) close := ⟨rfl, rfl, ho.sole.close_at, hl.unlimited'⟩
      have hcstep := (step_of_zero ho.exit hp' hv').trans
        (hat'.step_close_of_zero ho.sole.close_kind
          (by
            show 0 ≤ (c.tape.grow _).pointer
            rwa [Tape.pointer_grow])
          (by
            show (c.tape.grow _).cell (c.tape.grow _).pointer = 0
            rw [Tape.pointer_grow, Tape.cell_grow, hv']))
      refine .on (.single (hat.step_close_of_zero hs.close_kind hp hv)) (.single hcstep) .zero
        (.same ⟨?_, hl.input, hl.output, hl.eofValue, hl.unlimited, hl.unlimited',
          Nat.succ_le_succ hl.steps⟩ rfl rfl ⟨⟨k + 3, rfl⟩, nofun⟩)
      show m.tape.grow _ = (c.tape.grow _).grow (c.tape.grow _).pointer.toNat
      rw [Tape.pointer_grow, Tape.grow_grow, htape]
    · have hv' : c.tape.cell c.tape.pointer ≠ 0 := htape ▸ hv
      have hback := walk_back hs hf hl.unlimited ho.shed hc hp hv
      exact .prepend hback .refl (ho.block_of_body ⟨hl.grow, hl.input, hl.output, hl.eofValue,
        hl.unlimited, hl.unlimited', Nat.le_add_right_of_le hl.steps⟩ rfl rfl hp' hv')

/-! ### Where a loop is entered -/

section
variable (hs : SoleLoop code k loop body close) (hl : Level m c)
  (hm : At (shedCode code scans) m k (loop.shed scans)) (hc : At code c k loop)
include hs hl hm hc

theorem block_of_no_pass (hv : m.tape.pointer < 0 ∨ m.tape.cell m.tape.pointer = 0) :
    Block (step (shedCode code scans)) (step code) (Synced code scans) SameEnd m c := by
  have hs' := hs.shed scans
  have htape := hl.tape
  have hsteps := Nat.succ_le_succ hl.steps
  rcases Int.lt_or_le m.tape.pointer 0 with hp | hp
  · have hp' : c.tape.pointer < 0 := htape ▸ hp
    exact .stop .refl .refl .zero (hm.stops_open_of_neg hs'.loop_kind hp)
      (hc.stops_open_of_neg hs.loop_kind hp') ⟨hl.underflow, htape, hl.input, hl.output, hsteps⟩
  · have hv := hv.resolve_left (by omega)
    have hmstep := hm.step_open_of_zero hs'.loop_kind hs'.loop_target hp hv
    have hcstep := hc.step_open_of_zero hs.loop_kind hs.loop_target (htape ▸ hp) (htape ▸ hv)
    exact .on (.single hmstep) (.single hcstep) .zero (.same ⟨hl.grow, hl.input, hl.output,
      hl.eofValue, hl.unlimited, hl.unlimited', hsteps⟩ rfl rfl ⟨⟨k + 2, rfl⟩, nofun⟩)

/-- A loop that the second run makes passes of. -/
theorem block_of_passes {F : Focus} (hu : (loop.shed scans).Unmarked)
    (hp : 0 ≤ m.tape.pointer) (hv : m.tape.cell m.tape.pointer ≠ 0)
    (hF : F.exit? = some (some ((k + 2 : Nat) : Int)))
    (hpass : ∀ t, F.pass t = runOn body t)
    (hcstep : step code c = .ok true { c with
      tape := c.tape.grow c.tape.pointer.toNat, focus := F, steps := c.steps + 1 }) :
    Block (step (shedCode code scans)) (step code) (Synced code scans) SameEnd m c := by
  have hmstep := hm.step_open_of_ne (hs.shed scans).loop_kind hu hp hv
  have ho : InLoop code scans k loop body close { c with
      tape := c.tape.grow c.tape.pointer.toNat, focus := F, steps := c.steps + 1 } :=
    ⟨hs, hu, hF, hpass, hc.cursor⟩
  have htape := hl.tape
  refine .prepend (.cons hmstep rfl rfl .refl) (.single hcstep) (ho.block_of_body ⟨?_, hl.input,
    hl.output, hl.eofValue, hl.unlimited, hl.unlimited', Nat.succ_le_succ hl.steps⟩ rfl rfl ?_ ?_)
  · show m.tape.grow _ = (c.tape.grow _).grow (c.tape.grow _).pointer.toNat
    rw [Tape.pointer_grow, Tape.grow_grow, htape]
  · show 0 ≤ (c.tape.grow _).pointer
    rw [Tape.pointer_grow, ← htape]
    exact hp
  · show (c.tape.grow _).cell (c.tape.grow _).pointer ≠ 0
    rw [Tape.pointer_grow, Tape.cell_grow, ← htape]
    exact hv

end

theorem At.step_open_linear {factor : Int} (h : At code c k loop) (hs : SoleLoop code k loop body close)
    (hf : loop.linearFactor = some factor) (hp : 0 ≤ c.tape.pointer)
    (hv : c.tape.cell c.tape.pointer ≠ 0) :
    step code c =
      match openLinear loop body factor (c.tape.cell c.tape.pointer)
        { c.ticked with tape := c.tape.grow c.tape.pointer.toNat } with
      | .ok () c' => .ok true c'
      | .error f c' => .error f c' := by
  have hfetch : fetch? code (c.cursor + 1) = some body := by
    rw [fetch?, if_pos (by rw [h.cursor]; omega), h.cursor]
    exact hs.body_at
  have hexec : execute code loop c.ticked = _ := (congrFun (by rw [execute, hs.loop_kind]) _).trans
    (openLoop_of_factor (m := c.ticked) hf hfetch hp hv)
  rw [h.step_eq, hexec]
  rfl

section
variable (hl : Level m c) (hc : At code c k loop)
  (hm : At (shedCode code scans) m k (loop.shed scans))
include hl hc hm

theorem block_of_closed {factor : Int} (hs : SoleLoop code k loop body close)
    (hf : loop.linearFactor = some factor)
    (h : Countdown (shedCode code scans) k (loop.shed scans) (body.shed scans) (close.shed scans)
      factor)
    (hp : 0 ≤ m.tape.pointer) (hv : m.tape.cell m.tape.pointer = factor * (n + 1 : Nat)) :
    Block (step (shedCode code scans)) (step code) (Synced code scans) SameEnd m c := by
  have htape := hl.tape
  have hvpos : 0 < factor * (n + 1 : Nat) := Int.mul_pos h.pos (by omega)
  have hquot : factor * ((n + 1 : Nat) : Int) / factor = (n + 1 : Nat) :=
    Int.mul_ediv_cancel_left _ (Int.ne_of_gt h.pos)
  have hne : m.tape.cell m.tape.pointer ≠ 0 := by rw [hv]; exact Int.ne_of_gt hvpos
  have hstep := hc.step_open_linear hs hf (htape ▸ hp) (htape ▸ hne)
  rw [← htape, hv, openLinear, if_pos ⟨hvpos, Int.mul_emod_right factor _⟩, hquot] at hstep
  have hpointer : (m.tape.grow m.tape.pointer.toNat).pointer = m.tape.pointer :=
    Tape.pointer_grow _ _
  have hsteps := Nat.succ_le_succ hl.steps
  cases hfault : m.tape.applyFault? body.deltas body.baseOffset body.minOffset with
  | some j =>
    -- the first pass fails, and so does the closed form
    have hfault' := (Tape.applyFault?_congr hpointer _ _ _).trans hfault
    have happly := onTape_of_error (m := { c.ticked with tape := m.tape.grow m.tape.pointer.toNat })
      (Tape.apply_of_fault (n + 1 : Nat) hfault')
    rw [bind_of_error happly] at hstep
    have hopen := step_enter h.toSoleLoop hm.focus hm.unlimited h.unmarked hm.cursor hp hne
    have hat : At (shedCode code scans) (m.looked (k + 1 : Nat)) (k + 1) (body.shed scans) :=
      ⟨rfl, rfl, h.body_at, hl.unlimited⟩
    have hbody := hat.stops_run h.body_kind
      ((congrFun (runOn_shed scans body) _).trans (runOn_of_fault hfault'))
    exact .stop (.cons hopen .refl) .refl (Quiet.zero.cons hopen rfl rfl) hbody (.faulted hstep)
      ⟨rfl, rfl, hl.input, hl.output, Nat.le_succ_of_le hsteps⟩
  | none =>
    have hds := deltas_ne_nil h.delta h.pos
    rw [Instruction.deltas_shed] at hds
    have happly := onTape_of_ok (m := { c.ticked with tape := m.tape.grow m.tape.pointer.toNat })
      (Tape.apply_of_ne_nil (n + 1 : Nat) hds ((Tape.applyFault?_congr hpointer _ _ _).trans hfault))
    rw [bind_of_ok happly, hs.loop_target, hpointer] at hstep
    have hwalk := h.walk_closed hm.focus hm.unlimited hp hv hm.cursor (by
      rwa [Instruction.deltas_shed, Instruction.baseOffset_shed, Instruction.minOffset_shed])
    rw [Instruction.deltas_shed, Instruction.baseOffset_shed] at hwalk
    refine .of_silent hwalk (.single hstep) (.same ⟨rfl, hl.input, hl.output, hl.eofValue,
      hl.unlimited, hl.unlimited', ?_⟩ rfl rfl ⟨⟨k + 2, rfl⟩, nofun⟩)
    show c.steps + 1 ≤ m.steps + _
    omega

variable (hcode : Marked code)
include hcode

theorem block_of_linear {factor : Int} (hf : loop.linearFactor = some factor) :
    Block (step (shedCode code scans)) (step code) (Synced code scans) SameEnd m c := by
  obtain ⟨hscan, hpos, body, close, hs, hshift, hdelta⟩ := hcode.linear hc.fetch hf
  have hu : (loop.shed scans).Unmarked := by
    cases scans with
    | false => exact ⟨rfl, hscan⟩
    | true => exact ⟨rfl, rfl⟩
  by_cases hv : m.tape.pointer < 0 ∨ m.tape.cell m.tape.pointer = 0
  · exact block_of_no_pass hs hl hm hc hv
  obtain ⟨hp, hv⟩ := not_or.1 hv
  have hp : 0 ≤ m.tape.pointer := Int.not_lt.1 hp
  by_cases hcond : 0 < m.tape.cell m.tape.pointer ∧ m.tape.cell m.tape.pointer % factor = 0
  · have hdvd := Int.dvd_of_emod_eq_zero hcond.2
    have hq := Int.ediv_pos_of_pos_of_dvd hcond.1 (Int.le_of_lt hpos) hdvd
    obtain ⟨n, hn⟩ : ∃ n : Nat, m.tape.cell m.tape.pointer / factor = (n + 1 : Nat) :=
      ⟨(m.tape.cell m.tape.pointer / factor - 1).toNat, by omega⟩
    have h : Countdown (shedCode code scans) k (loop.shed scans) (body.shed scans)
        (close.shed scans) factor :=
      ⟨hs.shed scans, hu, by rw [Instruction.netShift_shed, hshift],
        by rw [Instruction.deltaAt_shed, hdelta], hpos⟩
    exact block_of_closed hl hc hm hs hf h hp (by rw [← hn, Int.mul_ediv_cancel' hdvd])
  · have htape := hl.tape
    have hstep := hc.step_open_linear hs hf (htape ▸ hp) (htape ▸ hv)
    rw [← htape, openLinear, if_neg hcond, hs.loop_target, htape] at hstep
    have hF : (Focus.iterate body (some ((k + 2 : Nat) : Int))).exit? = _ := rfl
    exact block_of_passes hs hl hm hc hu hp hv hF (fun t => (runOn_of_still hshift).symm) hstep

theorem block_of_scan {d : Int} (hd : loop.scanStep = some d) (hscans : scans = true) :
    Block (step (shedCode code scans)) (step code) (Synced code scans) SameEnd m c := by
  obtain ⟨hf, -, body, close, hs, hshift, hds, hlow⟩ := hcode.scan hc.fetch hd
  have hu : (loop.shed scans).Unmarked := by
    rw [hscans]
    exact ⟨rfl, rfl⟩
  by_cases hv : m.tape.pointer < 0 ∨ m.tape.cell m.tape.pointer = 0
  · exact block_of_no_pass hs hl hm hc hv
  obtain ⟨hp, hv⟩ := not_or.1 hv
  have hp : 0 ≤ m.tape.pointer := Int.not_lt.1 hp
  have htape := hl.tape
  have hF : (Focus.scan d (some ((k + 2 : Nat) : Int))).exit? = _ := rfl
  refine block_of_passes hs hl hm hc hu hp hv hF (fun t => ?_) ?_
  · rw [runOn_of_move hds hlow, hshift]
    rfl
  · have hexec : execute code loop c.ticked = _ := (congrFun (by rw [execute, hs.loop_kind]) _).trans
      (openLoop_of_ne_zero (m := c.ticked) (htape ▸ hp) (htape ▸ hv))
    rw [hf, hd] at hexec
    rw [hc.step_of_ok hexec, hs.loop_target]
    rfl

end

/-! ### Where both runs do the same -/

/-- Only a linear loop looks at the code around it. -/
theorem execute_congr (hf : i.linearFactor = none) (code code' : Array Instruction) :
    execute code i = execute code' i := by
  unfold execute openLoop
  rw [hf]
  cases i.scanStep <;> rfl

/-- Both runs settle alike and then do the same. -/
theorem block_of_acts {m₁ c₁ : Machine} {x : Execution Unit} (hl : Level m c)
    (hm : settle (shedCode code scans) m = .ok true m₁) (hc : settle code c = .ok true c₁)
    (ha : Alike m₁ c₁) (hx : act (shedCode code scans) m₁.ticked = x m₁.ticked)
    (hy : act code c₁.ticked = x c₁.ticked) (hxx : Respects Alike x) (hplace : KeepsPlace x)
    (hlater : Keeps Later x) (hp : Placed m₁) :
    Block (step (shedCode code scans)) (step code) (Synced code scans) SameEnd m c := by
  have hsm : Still m (after (settle (shedCode code scans) m)) := still_settle m
  have hsc : Still c (after (settle code c)) := still_settle c
  rw [hm] at hsm
  rw [hc] at hsc
  have hm₁ : m₁.maxSteps = none := hsm.maxSteps.trans hl.unlimited
  have hc₁ : c₁.maxSteps = none := hsc.maxSteps.trans hl.unlimited'
  have hsteps : c₁.ticked.steps ≤ m₁.ticked.steps := by
    show c₁.steps + 1 ≤ m₁.steps + 1
    rw [show c₁.steps = _ from hsc.steps, show m₁.steps = _ from hsm.steps]
    exact Nat.succ_le_succ hl.steps
  have hmstep : step (shedCode code scans) m = _ := counted_of_ready hm hm₁
  have hcstep : step code c = _ := counted_of_ready hc hc₁
  have hlm := hlater m₁.ticked
  have hlc := hlater c₁.ticked
  have hpm := hplace m₁.ticked ⟨hp.cursor, hp.exit⟩
  have hout := hxx m₁.ticked c₁.ticked
    ⟨ha.tape, ha.input, ha.output, ha.eofValue, ha.cursor, ha.focus⟩
  rw [hx] at hmstep
  rw [hy] at hcstep
  match hxm : x m₁.ticked, hxc : x c₁.ticked, hout with
  | _, _, .ok () h =>
    rw [hxm] at hmstep hlm hpm
    rw [hxc] at hcstep hlc
    refine .on (.single hmstep) (.single hcstep) .zero (.same ⟨h.tape, h.input, h.output, h.eofValue,
      hlm.maxSteps.trans hm₁, hlc.maxSteps.trans hc₁, ?_⟩ h.cursor h.focus hpm)
    exact hlc.steps.trans_le (hsteps.trans_eq hlm.steps.symm)
  | _, _, .error f h =>
    rw [hxm] at hmstep hlm
    rw [hxc] at hcstep hlc
    refine .stop .refl .refl .zero (.faulted hmstep) (.faulted hcstep)
      ⟨rfl, h.tape, h.input, h.output, ?_⟩
    exact hlc.steps.trans_le (hsteps.trans_eq hlm.steps.symm)

section
variable (hcode : Marked code) (hl : Level m c)
include hcode hl

theorem block_of_dispatch (hm : m.cursor = k) (hc : c.cursor = k) (hmf : m.focus = .dispatch)
    (hcf : c.focus = .dispatch) :
    Block (step (shedCode code scans)) (step code) (Synced code scans) SameEnd m c := by
  have hsize : (shedCode code scans).size = code.size := Array.size_map
  match hi : code[k]? with
  | none =>
    have hle : code.size ≤ k := Array.getElem?_eq_none_iff.1 hi
    have hmstep : step (shedCode code scans) m = .ok false m :=
      step_of_end hmf (by rw [hm, hsize]; omega)
    have hcstep : step code c = .ok false c := step_of_end hcf (by rw [hc]; omega)
    exact .stop .refl .refl .zero (.finished hmstep) (.finished hcstep)
      ⟨rfl, hl.tape, hl.input, hl.output, hl.steps⟩
  | some i =>
    have hatc : At code c k i := ⟨hcf, hc, hi, hl.unlimited'⟩
    have hatm : At (shedCode code scans) m k (i.shed scans) :=
      ⟨hmf, hm, getElem?_shedCode hi, hl.unlimited⟩
    match hf : i.linearFactor with
    | some factor => exact block_of_linear hl hatc hatm hcode hf
    | none =>
      by_cases hmark : scans = true ∧ i.scanStep ≠ none
      · obtain ⟨d, hd⟩ := Option.ne_none_iff_exists'.1 hmark.2
        exact block_of_scan hl hatc hatm hcode hd hmark.1
      · have hshed : i.shed scans = i := Instruction.shed_eq_self hf fun h =>
          Classical.byContradiction fun hs => hmark ⟨h, hs⟩
        rw [hshed] at hatm
        refine block_of_acts hl hatm.settle hatc.settle ⟨hl.tape, hl.input, hl.output, hl.eofValue,
            hm.trans hc.symm, hmf.trans hcf.symm⟩ ?_ hatc.act (congruence_alike.respects_execute code i)
          (keepsPlace_execute hf (hcode.linked hi)) (later_execute i) ⟨⟨k, hm⟩, fun exit he => ?_⟩
        · rw [hatm.act, execute_congr hf _ code]
        · rw [hmf] at he
          cases he

end

section
variable (hl : Level m c) (hcur : m.cursor = c.cursor) (hfoc : m.focus = c.focus) {exit : Option Int}
  (hexit : m.focus.exit? = some exit)
include hl hcur hfoc hexit

/-- Where both runs are in a loop and do not leave it. -/
theorem block_of_loop (hp : Placed m) (hnonneg : 0 ≤ m.tape.pointer)
    (hv : m.tape.cell m.tape.pointer ≠ 0) :
    Block (step (shedCode code scans)) (step code) (Synced code scans) SameEnd m c := by
  have hsize : (shedCode code scans).size = code.size := Array.size_map
  have hexit' : c.focus.exit? = some exit := hfoc ▸ hexit
  have htape := hl.tape
  have hm : settle (shedCode code scans) m = _ := settle_of_ne_zero hexit hnonneg hv
  have hc : settle code c = _ := settle_of_ne_zero hexit' (htape ▸ hnonneg) (htape ▸ hv)
  rw [hsize] at hm
  by_cases hlt : c.cursor < code.size
  · rw [decide_eq_true (by rwa [hcur])] at hm
    rw [decide_eq_true hlt] at hc
    refine block_of_acts hl hm hc ⟨hl.grow, hl.input, hl.output, hl.eofValue, hcur, hfoc⟩
      (act_of_loop hexit) ?_ (congruence_alike.respects_passOf m.focus) (keepsPlace_passOf m.focus)
      (later_passOf m.focus) ⟨hp.cursor, hp.exit⟩
    rw [hfoc]
    exact act_of_loop hexit'
  · rw [decide_eq_false (by rwa [hcur])] at hm
    rw [decide_eq_false hlt] at hc
    have hmstep : step (shedCode code scans) m = _ := counted_of_not_ready hm
    have hcstep : step code c = _ := counted_of_not_ready hc
    exact .stop .refl .refl .zero (.finished hmstep) (.finished hcstep)
      ⟨rfl, hl.grow, hl.input, hl.output, hl.steps⟩

end

/-- Where both runs are about to do the same, be it in a loop or not. -/
theorem block_of_same (hcode : Marked code) (hl : Level m c) (hcur : m.cursor = c.cursor)
    (hfoc : m.focus = c.focus) (hp : Placed m) :
    Block (step (shedCode code scans)) (step code) (Synced code scans) SameEnd m c := by
  obtain ⟨k, hk⟩ := hp.cursor
  cases hexit : m.focus.exit? with
  | none =>
    have hmf := Focus.eq_dispatch hexit
    exact block_of_dispatch hcode hl hk (hcur.symm.trans hk) hmf (hfoc.symm.trans hmf)
  | some exit =>
    obtain ⟨t, rfl⟩ := hp.exit exit hexit
    have hexit' : c.focus.exit? = some (some (t : Int)) := hfoc ▸ hexit
    have htape := hl.tape
    rcases Int.lt_or_le m.tape.pointer 0 with hneg | hnonneg
    · have hmstep : step (shedCode code scans) m = _ :=
        counted_of_ready_error (settle_of_neg hexit hneg)
      have hcstep : step code c = _ :=
        counted_of_ready_error (settle_of_neg hexit' (htape ▸ hneg))
      exact .stop .refl .refl .zero (.faulted hmstep) (.faulted hcstep)
        ⟨hl.underflow, htape, hl.input, hl.output, hl.steps⟩
    by_cases hv : m.tape.cell m.tape.pointer = 0
    · -- both leave the loop and go on where it ends
      have hblock : Block (step (shedCode code scans)) (step code) (Synced code scans) SameEnd _ _ :=
        block_of_dispatch hcode (m := { m with
          tape := m.tape.grow m.tape.pointer.toNat, cursor := (t : Int), focus := .dispatch })
        (c := { c with
          tape := c.tape.grow c.tape.pointer.toNat, cursor := (t : Int), focus := .dispatch })
        ⟨hl.grow, hl.input, hl.output, hl.eofValue, hl.unlimited, hl.unlimited', hl.steps⟩
        rfl rfl rfl rfl
      exact hblock.congr (step_of_zero hexit hnonneg hv)
        (step_of_zero hexit' (htape ▸ hnonneg) (htape ▸ hv)) rfl rfl
    · exact block_of_loop hl hcur hfoc hexit hp hnonneg hv

theorem simulates_shed (hcode : Marked code) (scans : Bool) :
    Simulates (step (shedCode code scans)) (step code) (Synced code scans) SameEnd := by
  intro m c h
  cases h with
  | same hl hc hf hp => exact block_of_same hcode hl hc hf hp
  | loop hl ho hf hc => exact ho.block hl hf hc

end Machine

end TapeFold
