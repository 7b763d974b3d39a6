import TapeFold.Proofs.Lockstep

/-!
# What passes between a run and the outside

A step of compiled code or of the reference reads a byte, writes one, or does neither and works inside
the machine (`Conducted`). So what goes on inside is the same on machines that differ in their channels
alone (`Beside`), and two runs stay related if the steps that are watched keep them so
(`match_watch`).
-/

namespace TapeFold

/-- A way to exchange a byte with the outside. -/
inductive Exchange
  | read
  | write
deriving DecidableEq

def Kind.exchange? : Kind → Option Exchange
  | .read => some .read
  | .write => some .write
  | _ => none

def Symbol.exchange? : Symbol → Option Exchange
  | .read => some .read
  | .write => some .write
  | _ => none

/-- What bytes are read from and written to, and what is read in place of a byte after the end. -/
structure Channels where
  input : Input
  eofValue : Int
  output : Output

namespace Machine

def channels (m : Machine) : Channels := ⟨m.input, m.eofValue, m.output⟩

def withChannels (m : Machine) (channels : Channels) : Machine :=
  { m with input := channels.input, eofValue := channels.eofValue, output := channels.output }

/-- The machines are the same but for their channels, which `P` relates. -/
inductive Beside (P : Channels → Channels → Prop) : Machine → Machine → Prop
  | mk {m : Machine} {channels : Channels} (h : P m.channels channels) :
      Beside P m (m.withChannels channels)

/-- The exchange that the machine is about to make. -/
def exchange? (code : Array Instruction) (m : Machine) : Option Exchange :=
  match m.focus, fetch? code m.cursor with
  | .dispatch, some i => i.kind.exchange?
  | _, _ => none

/-- What `view` shows of the machine, in order, each time it has counted a step and is about to act. -/
def watch {α : Type} (ready : Execution Bool) (act : Execution Unit) (view : Machine → Option α) :
    (fuel : Nat) → Machine → List α
  | 0, _ => []
  | fuel + 1, m =>
    match due ready m with
    | .ok true m =>
      (view m).toList ++
        match act m with
        | .ok () m => watch ready act view fuel m
        | .error _ _ => []
    | _ => []

/-- The reads that are executed. -/
def readView (exchange? : Machine → Option Exchange) (m : Machine) : Option Unit :=
  if exchange? m = some .read then some () else none

/-- The values of the cells that are written. -/
def writeView (exchange? : Machine → Option Exchange) (m : Machine) : Option Int :=
  if exchange? m = some .write ∧ 0 ≤ m.tape.pointer then some (m.tape.cell m.tape.pointer) else none

end Machine

/-- The exchange that the reference is about to make. -/
def Reference.exchange? (symbols : Array Symbol) (m : Machine) : Option Exchange :=
  symbols[m.cursor.toNat]?.bind Symbol.exchange?

namespace Machine

/-- A step does no more with the outside than the exchange that it is about to make. -/
structure Conducted (ready : Execution Bool) (act : Execution Unit)
    (exchange? : Machine → Option Exchange) : Prop where
  ready : ∀ {R}, Inward R → Respects R ready
  inward : ∀ {R}, Inward R → ∀ {m c}, R m c → exchange? m = none → Outcome R (act m) (act c)
  read : ∀ {m}, exchange? m = some .read → act m = (do readCell; advance : Execution Unit) m
  write : ∀ {m}, exchange? m = some .write → act m = (do writeCell; advance : Execution Unit) m
  same : ∀ {R}, Inward R → ∀ {m c}, R m c → exchange? m = exchange? c

variable {code : Array Instruction} {m m' c : Machine} {e : Exchange} {k : Nat}

/-! ### Compiled code and the reference -/

theorem exchange?_of_loop (h : m.focus ≠ .dispatch) : exchange? code m = none := by
  unfold exchange?
  cases hf : m.focus with
  | dispatch => exact absurd hf h
  | iterate body exit => rfl
  | scan step exit => rfl

theorem exchange?_of_dispatch (h : m.focus = .dispatch) :
    exchange? code m = (fetch? code m.cursor).bind (·.kind.exchange?) := by
  unfold exchange?
  rw [h]
  cases fetch? code m.cursor <;> rfl

/-- A machine about to make an exchange dispatches the instruction that makes it. -/
theorem exists_of_exchange? (h : exchange? code m = some e) :
    ∃ i, i.kind.exchange? = some e ∧ act code m = execute code i m := by
  by_cases hf : m.focus = .dispatch
  · rw [exchange?_of_dispatch hf] at h
    obtain ⟨i, hi, hk⟩ := Option.bind_eq_some_iff.1 h
    exact ⟨i, hk, act_of_dispatch hf hi⟩
  · rw [exchange?_of_loop hf] at h
    cases h

theorem conducted_code (code : Array Instruction) :
    Conducted (settle code) (act code) (exchange? code) where
  ready {_} hR := hR.respects_settle code
  inward {_} hR {m c} h hno := by
    have hkind (i : Instruction) (hf : m.focus = .dispatch) (hi : fetch? code m.cursor = some i) :
        i.kind.exchange? = none := by
      rw [exchange?_of_dispatch hf, hi] at hno
      exact hno
    refine hR.outcome_act code h (fun i hf hi hk => ?_) fun i hf hi hk => ?_
    · have h' := hkind i hf hi
      rw [hk] at h'
      cases h'
    · have h' := hkind i hf hi
      rw [hk] at h'
      cases h'
  read {m} h := by
    obtain ⟨i, hk, ha⟩ := exists_of_exchange? h
    rw [ha, execute]
    cases hi : i.kind with
    | read => rfl
    | _ =>
      rw [hi] at hk
      cases hk
  write {m} h := by
    obtain ⟨i, hk, ha⟩ := exists_of_exchange? h
    rw [ha, execute]
    cases hi : i.kind with
    | write => rfl
    | _ =>
      rw [hi] at hk
      cases hk
  same {_} hR {m c} h := by
    unfold exchange?
    rw [hR.focus h, hR.cursor h]

theorem conducted_reference (symbols : Array Symbol) (pairs : BracketPairs) :
    Conducted (Reference.ready symbols) (Reference.next (Reference.perform pairs) symbols)
      (Reference.exchange? symbols) where
  ready {_} hR := Reference.respects_ready hR symbols
  inward {_} hR {m c} h hno := by
    refine Reference.outcome_next hR symbols h fun s hs => ?_
    have hs' : s.exchange? = none := by
      rw [Reference.exchange?, hs] at hno
      exact hno
    refine hR.outcome_perform pairs h _ ?_ ?_
    · rintro rfl
      cases hs'
    · rintro rfl
      cases hs'
  read {m} h := by
    obtain ⟨s, hs, hk⟩ := Option.bind_eq_some_iff.1 h
    cases s with
    | read => simp only [Reference.next, hs, Reference.perform]
    | _ => cases hk
  write {m} h := by
    obtain ⟨s, hs, hk⟩ := Option.bind_eq_some_iff.1 h
    cases s with
    | write => simp only [Reference.next, hs, Reference.perform]
    | _ => cases hk
  same {_} hR {m c} h := by
    rw [Reference.exchange?, Reference.exchange?, hR.cursor h]

/-! ### Machines with different channels -/

section
variable {P Q : Channels → Channels → Prop} {e₁ e₂ : Ending}

theorem Beside.channels (h : Beside P m c) : P m.channels c.channels := by
  cases h with
  | mk h => exact h

theorem Beside.eq (h : Beside P m c) : c = m.withChannels c.channels := by
  cases h
  rfl

theorem Beside.of_eq (h : P m.channels c.channels) (hc : c = m.withChannels c.channels) :
    Beside P m c := by
  rw [hc]
  exact .mk h

theorem inward_beside (P : Channels → Channels → Prop) : Inward (Beside P) := by
  refine .of_tape ?_ ?_ ?_ ?_ ?_ ?_ ?_ ?_ ?_
  · rintro m _ ⟨-⟩
    rfl
  · rintro m _ ⟨h⟩ t
    exact .mk (m := { m with tape := t }) h
  · rintro m _ ⟨-⟩
    rfl
  · rintro m _ ⟨-⟩
    rfl
  · rintro m _ ⟨h⟩ cursor
    exact .mk (m := { m with cursor }) h
  · rintro m _ ⟨h⟩ focus
    exact .mk (m := { m with focus }) h
  · rintro m _ ⟨h⟩
    exact .mk (m := { m with linearEvaluations := m.linearEvaluations + 1 }) h
  · rintro m _ ⟨h⟩
    exact .mk (m := { m with fallbackPasses := m.fallbackPasses + 1 }) h
  · rintro m _ ⟨h⟩
    exact .mk (m := { m with scanPasses := m.scanPasses + 1 }) h

theorem timed_beside (P : Channels → Channels → Prop) : Timed (Beside P) where
  steps := by
    rintro m _ ⟨-⟩
    rfl
  maxSteps := by
    rintro m _ ⟨-⟩
    rfl
  ticked := by
    rintro m _ ⟨h⟩
    exact .mk (m := m.ticked) h

/-- The end of a run flushes the outputs. -/
theorem Beside.close (hflush : ∀ {a b}, P a b →
      Q { a with output := a.output.flush } { b with output := b.output.flush })
    (hm : e₁.Match (Beside P) e₂) (hh : e₁.halt ≠ .unfinished) :
    e₁.close.Match (Beside Q) e₂.close := by
  obtain ⟨m, halt⟩ := e₁
  obtain ⟨c, halt'⟩ := e₂
  obtain ⟨rfl, hmc⟩ : halt = halt' ∧ Beside P m c := ⟨hm.halt, hm.machine⟩
  have hend : Beside Q { m with output := m.output.flush, focus := .dispatch }
      { c with output := c.output.flush, focus := .dispatch } := by
    rcases hmc with ⟨h⟩
    exact .mk (m := { m with output := m.output.flush, focus := .dispatch }) (hflush h)
  cases halt with
  | unfinished => exact absurd rfl hh
  | finished => exact ⟨rfl, hend⟩
  | faulted f => exact ⟨rfl, hend⟩

end

/-! ### Watched runs -/

section
variable {α : Type} {ready : Execution Bool} {act' : Execution Unit}
  {exchange? : Machine → Option Exchange} {view : Machine → Option α}
  {R : List α → Machine → Machine → Prop}

/-- A run that is due to act does so, and goes on if that brings no fault. -/
theorem iterate_of_due {fuel : Nat} {m₁ : Machine} (h : due ready m = .ok true m₁) :
    iterate (counted ready act') (fuel + 1) m =
      match act' m₁ with
      | .ok () m₂ => iterate (counted ready act') fuel m₂
      | .error f m₂ => ⟨m₂, .faulted f⟩ := by
  rw [iterate, counted_eq_due, bind_of_ok h, if_pos rfl]
  cases h' : act' m₁ with
  | ok u m₂ =>
    rw [bind_of_ok h']
    rfl
  | error f m₂ => rw [bind_of_error h']

theorem iterate_of_finished {fuel : Nat} {m₁ : Machine} (h : due ready m = .ok false m₁) :
    iterate (counted ready act') (fuel + 1) m = ⟨m₁, .finished⟩ := by
  rw [iterate, counted_eq_due, bind_of_ok h]
  rfl

theorem iterate_of_faulted {fuel : Nat} {f : Fault} {m₁ : Machine} (h : due ready m = .error f m₁) :
    iterate (counted ready act') (fuel + 1) m = ⟨m₁, .faulted f⟩ := by
  rw [iterate, counted_eq_due, bind_of_error h]

theorem watch_of_due {fuel : Nat} {m₁ : Machine} (h : due ready m = .ok true m₁) :
    watch ready act' view (fuel + 1) m = (view m₁).toList ++
      match act' m₁ with
      | .ok () m₂ => watch ready act' view fuel m₂
      | .error _ _ => [] := by
  rw [watch, h]

theorem watch_of_finished {fuel : Nat} {m₁ : Machine} (h : due ready m = .ok false m₁) :
    watch ready act' view (fuel + 1) m = [] := by
  rw [watch, h]

theorem watch_of_faulted {fuel : Nat} {f : Fault} {m₁ : Machine} (h : due ready m = .error f m₁) :
    watch ready act' view (fuel + 1) m = [] := by
  rw [watch, h]

/-- If a step leaves two machines related, given what has been seen of the first one so far, then a run
leaves them so, given all that is seen of it. The relation may depend on an assumption about what is
seen in the end. -/
theorem match_watch (assumed : List α → Prop)
    (hassumed : ∀ seen more, assumed (seen ++ more) → assumed seen)
    (hready : ∀ seen, Respects (R seen) ready) (htick : ∀ seen, Respects (R seen) tick)
    (hact : ∀ seen m c, R seen m c → assumed (seen ++ (view m).toList) →
      Outcome (R (seen ++ (view m).toList)) (act' m) (act' c))
    (fuel : Nat) (seen : List α) (h : R seen m c)
    (hseen : assumed (seen ++ watch ready act' view fuel m)) :
    Ending.Match (R (seen ++ watch ready act' view fuel m))
      (iterate (counted ready act') fuel m) (iterate (counted ready act') fuel c) := by
  induction fuel generalizing m c seen with
  | zero =>
    rw [watch, List.append_nil]
    exact ⟨rfl, h⟩
  | succ fuel ih =>
    have hdue := respects_due (hready seen) (htick seen) m c h
    generalize hm : due ready m = x at hdue
    generalize hc : due ready c = y at hdue
    cases hdue with
    | error f h' =>
      rw [iterate_of_faulted hm, iterate_of_faulted hc, watch_of_faulted hm, List.append_nil]
      exact ⟨rfl, h'⟩
    | @ok m₁ c₁ b h' =>
      cases b with
      | false =>
        rw [iterate_of_finished hm, iterate_of_finished hc, watch_of_finished hm, List.append_nil]
        exact ⟨rfl, h'⟩
      | true =>
        rw [watch_of_due hm, ← List.append_assoc] at hseen
        have hout := hact seen m₁ c₁ h' (hassumed _ _ hseen)
        rw [iterate_of_due hm, iterate_of_due hc, watch_of_due hm, ← List.append_assoc]
        generalize act' m₁ = x at hout hseen ⊢
        generalize act' c₁ = y at hout ⊢
        cases hout with
        | error f h'' =>
          rw [List.append_nil]
          exact ⟨rfl, h''⟩
        | ok u h'' => exact ih _ h'' hseen

end

end Machine

end TapeFold
