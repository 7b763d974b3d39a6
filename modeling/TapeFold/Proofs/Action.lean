import TapeFold.Execution
import TapeFold.Reference
import TapeFold.Proofs.Tape
import TapeFold.Proofs.Walk

/-!
# Actions on a machine

What the actions that steps are made of do, and the shape that the steps of a compiled program and
of the reference share: `Machine.counted ready act` settles what there is to do, counts a step and
acts.
-/

namespace TapeFold

/-- A focus other than dispatch leads out of its loop to an exit. -/
def Focus.exit? : Focus → Option (Option Int)
  | .dispatch => none
  | .iterate _ exit => some exit
  | .scan _ exit => some exit

theorem Focus.eq_dispatch {f : Focus} (h : f.exit? = none) : f = .dispatch := by
  cases f with
  | dispatch => rfl
  | _ => cases h

namespace Machine

variable {m m₁ m₂ : Machine} {t : Tape}

/-- The machine after one more counted step. -/
def ticked (m : Machine) : Machine := { m with steps := m.steps + 1 }

theorem tick_of_unlimited (h : m.maxSteps = none) : tick m = .ok () m.ticked := by
  unfold tick
  simp only
  split
  · rfl
  · simp_all

theorem tick_of_lt {limit : Int} (h : m.maxSteps = some limit) (hl : limit < (m.steps + 1 : Nat)) :
    tick m = .error (.stepLimit limit) m.ticked := by
  unfold tick
  simp only
  split
  · simp_all
  · rename_i limit' h'
    obtain rfl : limit' = limit := by simpa [h'] using h
    rw [if_pos hl]
    rfl

theorem tick_of_le {limit : Int} (h : m.maxSteps = some limit)
    (hl : ((m.steps + 1 : Nat) : Int) ≤ limit) : tick m = .ok () m.ticked := by
  unfold tick
  simp only
  split
  · rfl
  · rename_i limit' h'
    obtain rfl : limit' = limit := by simpa [h'] using h
    rw [if_neg (by omega)]
    rfl

section
variable {α : Type} {action : TapeAction α}

theorem onTape_of_ok {a : α} (h : action m.tape = .ok a t) :
    onTape action m = .ok a { m with tape := t } := by
  simp only [onTape, h]

theorem onTape_of_error {i : Int} (h : action m.tape = .error (.leftOfFirst i) t) :
    onTape action m = .error (.underflow i) { m with tape := t } := by
  simp only [onTape, h]

end

/-! ### Counted steps -/

/-- Settles what there is to do, counts a step and acts. -/
def counted (ready : Execution Bool) (act : Execution Unit) : Execution Bool := do
  if ← ready then
    tick
    act
    return true
  else
    return false

/-- Settles what there is to do and counts the step that does it. -/
def due (ready : Execution Bool) : Execution Bool := do
  if ← ready then
    tick
    return true
  else
    return false

theorem step_eq_counted (code : Array Instruction) :
    step code = counted (settle code) (act code) := rfl

section
variable {ready : Execution Bool} {act : Execution Unit} {f : Fault}

theorem counted_of_not_ready (h : ready m = .ok false m₁) :
    counted ready act m = .ok false m₁ := bind_of_ok h

theorem counted_of_ready_error (h : ready m = .error f m₁) :
    counted ready act m = .error f m₁ := bind_of_error h

theorem counted_of_tick_error (h : ready m = .ok true m₁) (ht : tick m₁ = .error f m₂) :
    counted ready act m = .error f m₂ := (bind_of_ok h).trans (bind_of_error ht)

theorem counted_of_tick (h : ready m = .ok true m₁) (ht : tick m₁ = .ok () m₂) :
    counted ready act m =
      match act m₂ with
      | .ok () m' => .ok true m'
      | .error f m' => .error f m' := by
  refine (bind_of_ok h).trans ((bind_of_ok ht).trans ?_)
  match ha : act m₂ with
  | .ok () m' => exact bind_of_ok ha
  | .error f m' => exact bind_of_error ha

theorem counted_of_ready (h : ready m = .ok true m₁) (hl : m₁.maxSteps = none) :
    counted ready act m =
      match act m₁.ticked with
      | .ok () m' => .ok true m'
      | .error f m' => .error f m' :=
  counted_of_tick h (tick_of_unlimited hl)

theorem tick_cases (m : Machine) : tick m = .ok () m.ticked ∨
    ∃ limit, m.maxSteps = some limit ∧ tick m = .error (.stepLimit limit) m.ticked := by
  match h : m.maxSteps with
  | none => exact .inl (tick_of_unlimited h)
  | some limit =>
    rcases Int.lt_or_le limit (m.steps + 1 : Nat) with hlt | hle
    · exact .inr ⟨limit, rfl, tick_of_lt h hlt⟩
    · exact .inl (tick_of_le h hle)

theorem counted_eq_due (ready : Execution Bool) (act : Execution Unit) : counted ready act =
    (do if ← due ready then act; return true else return false : Execution Bool) := by
  funext m
  match hr : ready m with
  | .error f m₁ =>
    have hdue : due ready m = .error f m₁ := bind_of_error hr
    rw [counted_of_ready_error hr, bind_of_error hdue]
  | .ok false m₁ =>
    have hdue : due ready m = .ok false m₁ := bind_of_ok hr
    rw [counted_of_not_ready hr, bind_of_ok hdue]
    rfl
  | .ok true m₁ =>
    rcases tick_cases m₁ with ht | ⟨limit, -, ht⟩
    · have hdue : due ready m = .ok true m₁.ticked := (bind_of_ok hr).trans (bind_of_ok ht)
      rw [counted, bind_of_ok hr, if_pos rfl, bind_of_ok ht, bind_of_ok hdue, if_pos rfl]
    · have hdue : due ready m = .error (.stepLimit limit) m₁.ticked :=
        (bind_of_ok hr).trans (bind_of_error ht)
      rw [counted_of_tick_error hr ht, bind_of_error hdue]

/-- A counted step has settled something to do, counted itself and acted. -/
theorem exists_of_counted_ok (h : counted ready act m = .ok true m₂) :
    ∃ m₁, ready m = .ok true m₁ ∧ tick m₁ = .ok () m₁.ticked ∧ act m₁.ticked = .ok () m₂ := by
  match hr : ready m with
  | .error f m₁ => cases (counted_of_ready_error hr).symm.trans h
  | .ok false m₁ => cases (counted_of_not_ready hr).symm.trans h
  | .ok true m₁ =>
    rcases tick_cases m₁ with ht | ⟨limit, -, ht⟩
    · refine ⟨m₁, rfl, ht, ?_⟩
      rw [counted_of_tick hr ht] at h
      match ha : act m₁.ticked with
      | .ok () m' =>
        rw [ha] at h
        cases h
        rfl
      | .error f m' =>
        rw [ha] at h
        cases h
    · cases (counted_of_tick_error hr ht).symm.trans h

/-- A step that does nothing has settled that there is nothing to do. -/
theorem ready_of_counted_false (h : counted ready act m = .ok false m₂) : ready m = .ok false m₂ := by
  match hr : ready m with
  | .error f m₁ => cases (counted_of_ready_error hr).symm.trans h
  | .ok false m₁ =>
    cases (counted_of_not_ready hr).symm.trans h
    rfl
  | .ok true m₁ =>
    rcases tick_cases m₁ with ht | ⟨limit, -, ht⟩
    · rw [counted_of_tick hr ht] at h
      match ha : act m₁.ticked with
      | .ok () m' =>
        rw [ha] at h
        cases h
      | .error f m' =>
        rw [ha] at h
        cases h
    · cases (counted_of_tick_error hr ht).symm.trans h

/-- A step faults as it settles, as it is counted or as it acts. -/
theorem exists_of_counted_error (h : counted ready act m = .error f m₂) :
    ready m = .error f m₂ ∨ ∃ m₁, ready m = .ok true m₁ ∧
      ((∃ limit, m₁.maxSteps = some limit ∧ f = .stepLimit limit ∧ m₂ = m₁.ticked) ∨
        act m₁.ticked = .error f m₂) := by
  match hr : ready m with
  | .error f' m₁ =>
    cases (counted_of_ready_error hr).symm.trans h
    exact .inl rfl
  | .ok false m₁ => cases (counted_of_not_ready hr).symm.trans h
  | .ok true m₁ =>
    refine .inr ⟨m₁, rfl, ?_⟩
    rcases tick_cases m₁ with ht | ⟨limit, hl, ht⟩
    · rw [counted_of_tick hr ht] at h
      match ha : act m₁.ticked with
      | .ok () m' =>
        rw [ha] at h
        cases h
      | .error f' m' =>
        rw [ha] at h
        cases h
        exact .inr rfl
    · cases (counted_of_tick_error hr ht).symm.trans h
      exact .inl ⟨limit, hl, rfl, rfl⟩

end

/-! ### Settling -/

variable {code : Array Instruction}

theorem settle_of_dispatch (h : m.focus = .dispatch) :
    settle code m = .ok (decide (m.cursor < code.size)) m := by
  refine (bind_of_ok rfl).trans ?_
  rw [h]
  rfl

section
variable {exit : Option Int}

/-- What is settled in a loop under way: it is left on a zero cell. -/
def leave (code : Array Instruction) (exit : Option Int) : Execution Bool := do
  if (← onTape Tape.get) = 0 then jump exit
  return (← get).cursor < code.size

theorem settle_of_loop (h : m.focus.exit? = some exit) : settle code m = leave code exit m := by
  refine (bind_of_ok rfl).trans ?_
  cases hf : m.focus with
  | dispatch => rw [hf] at h; cases h
  | iterate body exit' => rw [hf] at h; cases h; rfl
  | scan step exit' => rw [hf] at h; cases h; rfl

theorem settle_of_neg (h : m.focus.exit? = some exit) (hp : m.tape.pointer < 0) :
    settle code m = .error (.underflow m.tape.pointer) m := by
  have hget : onTape Tape.get m = .error (.underflow m.tape.pointer) m :=
    onTape_of_error (Tape.get_of_neg hp)
  exact (settle_of_loop h).trans (bind_of_error hget)

theorem settle_of_ne_zero (h : m.focus.exit? = some exit) (hp : 0 ≤ m.tape.pointer)
    (hv : m.tape.cell m.tape.pointer ≠ 0) :
    settle code m = .ok (decide (m.cursor < code.size))
      { m with tape := m.tape.grow m.tape.pointer.toNat } := by
  have hget := onTape_of_ok (m := m) (Tape.get_of_nonneg hp)
  refine (settle_of_loop h).trans ((bind_of_ok hget).trans ?_)
  rw [if_neg hv]
  rfl

theorem settle_of_zero {target : Int} (h : m.focus.exit? = some (some target))
    (hp : 0 ≤ m.tape.pointer) (hv : m.tape.cell m.tape.pointer = 0) :
    settle code m = .ok (decide (target < code.size))
      { m with tape := m.tape.grow m.tape.pointer.toNat, cursor := target, focus := .dispatch } := by
  have hget := onTape_of_ok (m := m) (Tape.get_of_nonneg hp)
  refine (settle_of_loop h).trans ((bind_of_ok hget).trans ?_)
  rw [if_pos hv]
  rfl

end

/-! ### Dispatch -/

theorem act_of_dispatch {i : Instruction} (h : m.focus = .dispatch)
    (hi : fetch? code m.cursor = some i) : act code m = execute code i m := by
  refine (bind_of_ok rfl).trans ?_
  rw [h]
  refine (bind_of_ok rfl).trans ?_
  rw [hi]

theorem fetch?_of_nonneg (h : 0 ≤ m.cursor) : fetch? code m.cursor = code[m.cursor.toNat]? :=
  if_pos h

theorem step_of_dispatch {i : Instruction} (hf : m.focus = .dispatch) (hc : 0 ≤ m.cursor)
    (hi : code[m.cursor.toNat]? = some i) (hl : m.maxSteps = none) :
    step code m =
      match execute code i m.ticked with
      | .ok () m' => .ok true m'
      | .error f m' => .error f m' := by
  have hlt : m.cursor < code.size := by
    have := (Array.getElem?_eq_some_iff.1 hi).1
    omega
  have hready : settle code m = .ok true m := by
    rw [settle_of_dispatch hf, decide_eq_true hlt]
  have hact : act code m.ticked = execute code i m.ticked :=
    act_of_dispatch hf ((fetch?_of_nonneg (m := m.ticked) hc).trans hi)
  rw [step_eq_counted, counted_of_ready hready hl, hact]

/-- A run of the code ends where there is no instruction left. -/
theorem step_of_end (hf : m.focus = .dispatch) (hc : (code.size : Int) ≤ m.cursor) :
    step code m = .ok false m := by
  refine counted_of_not_ready ?_
  rw [settle_of_dispatch hf, decide_eq_false (by omega)]

/-- One more pass of a loop under way. -/
def passOf : Focus → Execution Unit
  | .dispatch => pure ()
  | .iterate body _ => do
    onTape (Tape.apply body.deltas body.baseOffset 1 body.minOffset)
    modify fun m => { m with fallbackPasses := m.fallbackPasses + 1 }
  | .scan step _ => do
    onTape (Tape.shift step)
    modify fun m => { m with scanPasses := m.scanPasses + 1 }

theorem act_of_loop {exit : Option Int} (h : m.focus.exit? = some exit) :
    act code m = passOf m.focus m := by
  refine (bind_of_ok rfl).trans ?_
  cases hf : m.focus with
  | dispatch => rw [hf] at h; cases h
  | iterate body exit => rfl
  | scan step exit => rfl

theorem act_of_none (h : m.focus = .dispatch) (hi : fetch? code m.cursor = none) :
    act code m = .error .outOfRange m := by
  refine (bind_of_ok rfl).trans ?_
  rw [h]
  refine (bind_of_ok rfl).trans ?_
  rw [hi]
  rfl

/-! ### Input and output -/

/-- The value that is stored for what has been read. -/
def received (m : Machine) : Option UInt8 → Int
  | none => m.eofValue
  | some byte => byte.toNat

section
variable {input : Input} {b : Option UInt8}

theorem readCell_of_interrupt (h : m.input.read = .error .interrupted input) :
    readCell m = .error .interrupted { m with input } := by
  refine bind_of_error ?_
  simp only [read, h]

theorem read_of_ok (h : m.input.read = .ok b input) :
    read m = .ok (m.received b) { m with input } := by
  cases b <;> simp only [read, h] <;> rfl

theorem readCell_of_neg (h : m.input.read = .ok b input) (hp : m.tape.pointer < 0) :
    readCell m = .error (.underflow m.tape.pointer) { m with input } := by
  refine (bind_of_ok (read_of_ok h)).trans ?_
  exact onTape_of_error (Tape.set_of_neg hp _)

theorem readCell_of_nonneg (h : m.input.read = .ok b input) (hp : 0 ≤ m.tape.pointer) :
    readCell m = .ok () { m with input, tape := m.tape.put (m.received b) } := by
  refine (bind_of_ok (read_of_ok h)).trans ?_
  exact onTape_of_ok (Tape.set_of_nonneg hp _)

end

theorem writeCell_of_neg (hp : m.tape.pointer < 0) :
    writeCell m = .error (.underflow m.tape.pointer) m :=
  bind_of_error (onTape_of_error (Tape.get_of_neg hp))

theorem writeCell_of_nonneg (hp : 0 ≤ m.tape.pointer) :
    writeCell m = .ok () { m with
      tape := m.tape.grow m.tape.pointer.toNat
      output := m.output.push (byteOf (m.tape.cell m.tape.pointer)) } :=
  bind_of_ok (onTape_of_ok (Tape.get_of_nonneg hp))

/-! ### Runs -/

/-- What a run does to a tape. -/
def runOn (i : Instruction) : TapeAction Unit := do
  Tape.apply i.deltas i.baseOffset 1 i.minOffset
  Tape.shift i.netShift

section
variable {i : Instruction}

theorem applyRun_of_ok (h : runOn i m.tape = .ok () t) :
    applyRun i m = .ok () { m with tape := t, cursor := m.cursor + 1 } := by
  match ha : Tape.apply i.deltas i.baseOffset 1 i.minOffset m.tape with
  | .ok () t₁ =>
    have hs : Tape.shift i.netShift t₁ = .ok () t := (bind_of_ok ha).symm.trans h
    have hm := onTape_of_ok (m := { m with tape := t₁ }) hs
    exact (bind_of_ok (onTape_of_ok ha)).trans (bind_of_ok hm)
  | .error e t₁ => cases (bind_of_error ha).symm.trans h

theorem applyRun_of_error {j : Int} (h : runOn i m.tape = .error (.leftOfFirst j) t) :
    applyRun i m = .error (.underflow j) { m with tape := t } := by
  match ha : Tape.apply i.deltas i.baseOffset 1 i.minOffset m.tape with
  | .ok () t₁ =>
    have hs : Tape.shift i.netShift t₁ = .error (.leftOfFirst j) t := (bind_of_ok ha).symm.trans h
    exact (bind_of_ok (onTape_of_ok ha)).trans (bind_of_error (onTape_of_error hs))
  | .error e t₁ =>
    cases (bind_of_error ha).symm.trans h
    exact bind_of_error (onTape_of_error ha)

/-! ### Loops -/

theorem openLoop_of_neg (hp : m.tape.pointer < 0) :
    openLoop code i m = .error (.underflow m.tape.pointer) m :=
  bind_of_error (onTape_of_error (Tape.get_of_neg hp))

theorem openLoop_of_zero {target : Int} (ht : i.jumpTarget = some target)
    (hp : 0 ≤ m.tape.pointer) (hv : m.tape.cell m.tape.pointer = 0) :
    openLoop code i m = .ok ()
      { m with tape := m.tape.grow m.tape.pointer.toNat, cursor := target, focus := .dispatch } := by
  refine (bind_of_ok (onTape_of_ok (Tape.get_of_nonneg hp))).trans ?_
  rw [if_pos hv, ht]
  rfl

theorem openLoop_of_ne_zero (hp : 0 ≤ m.tape.pointer) (hv : m.tape.cell m.tape.pointer ≠ 0) :
    openLoop code i m =
      (match i.linearFactor, i.scanStep with
      | some factor, _ => do
        match fetch? code ((← get).cursor + 1) with
        | some body => openLinear i body factor (m.tape.cell m.tape.pointer)
        | none => throw .outOfRange
      | none, some step => modify fun m => { m with focus := .scan step i.jumpTarget }
      | none, none => advance : Execution Unit)
      { m with tape := m.tape.grow m.tape.pointer.toNat } :=
  (bind_of_ok (onTape_of_ok (Tape.get_of_nonneg hp))).trans (congrFun (if_neg hv) _)

theorem openLoop_of_factor {factor : Int} {body : Instruction} (hf : i.linearFactor = some factor)
    (hb : fetch? code (m.cursor + 1) = some body) (hp : 0 ≤ m.tape.pointer)
    (hv : m.tape.cell m.tape.pointer ≠ 0) :
    openLoop code i m = openLinear i body factor (m.tape.cell m.tape.pointer)
      { m with tape := m.tape.grow m.tape.pointer.toNat } := by
  rw [openLoop_of_ne_zero hp hv, hf]
  refine (bind_of_ok (x := get) rfl).trans ?_
  show (match fetch? code (m.cursor + 1) with
    | some body => openLinear i body factor (m.tape.cell m.tape.pointer)
    | none => throw Fault.outOfRange : Execution Unit) _ = _
  rw [hb]

theorem openLoop_of_unmarked (hi : i.linearFactor = none ∧ i.scanStep = none)
    (hp : 0 ≤ m.tape.pointer) (hv : m.tape.cell m.tape.pointer ≠ 0) :
    openLoop code i m = .ok ()
      { m with tape := m.tape.grow m.tape.pointer.toNat, cursor := m.cursor + 1 } := by
  rw [openLoop_of_ne_zero hp hv, hi.1, hi.2]
  rfl

theorem closeLoop_of_neg (hp : m.tape.pointer < 0) :
    closeLoop i m = .error (.underflow m.tape.pointer) m :=
  bind_of_error (onTape_of_error (Tape.get_of_neg hp))

theorem closeLoop_of_zero (hp : 0 ≤ m.tape.pointer) (hv : m.tape.cell m.tape.pointer = 0) :
    closeLoop i m = .ok ()
      { m with tape := m.tape.grow m.tape.pointer.toNat, cursor := m.cursor + 1 } := by
  refine (bind_of_ok (onTape_of_ok (Tape.get_of_nonneg hp))).trans ?_
  rw [if_neg (not_not_intro hv)]
  rfl

theorem closeLoop_of_ne_zero {target : Int} (ht : i.jumpTarget = some target)
    (hp : 0 ≤ m.tape.pointer) (hv : m.tape.cell m.tape.pointer ≠ 0) :
    closeLoop i m = .ok ()
      { m with tape := m.tape.grow m.tape.pointer.toNat, cursor := target, focus := .dispatch } := by
  refine (bind_of_ok (onTape_of_ok (Tape.get_of_nonneg hp))).trans ?_
  rw [if_pos hv, ht]
  rfl

end

end Machine

end TapeFold
