import TapeFold.Proofs.Source
import TapeFold.Proofs.Exchange

/-!
# Interrupted input

A run whose input is interrupted goes like one whose input is not, up to the read in place of which the
interrupt comes (`Machine.Conducted.interrupts`).
-/

namespace TapeFold

/-- What passes between a run and the outside: a read, or a byte that is written. -/
inductive Traffic
  | read
  | wrote (byte : UInt8)
deriving DecidableEq

/-- The bytes written before the read that `n` reads precede, if there is such a read. -/
def writtenBefore : (n : Nat) → List Traffic → Option (List UInt8)
  | _, [] => none
  | 0, .read :: _ => some []
  | n + 1, .read :: ts => writtenBefore n ts
  | n, .wrote byte :: ts => (writtenBefore n ts).map (byte :: ·)

theorem writtenBefore_wrote (n : Nat) (byte : UInt8) (ts : List Traffic) :
    writtenBefore n (.wrote byte :: ts) = (writtenBefore n ts).map (byte :: ·) := by
  cases n <;> rfl

theorem writtenBefore_replicate (k n : Nat) (ts : List Traffic) :
    writtenBefore n (List.replicate k .read ++ ts) =
      if n < k then some [] else writtenBefore (n - k) ts := by
  induction k generalizing n with
  | zero => rfl
  | succ k ih =>
    cases n with
    | zero => rfl
    | succ n =>
      show writtenBefore n (List.replicate k .read ++ ts) = _
      rw [ih]
      simp only [Nat.add_lt_add_iff_right, Nat.add_sub_add_right]

/-- There is no such read just if there are at most `n` of them. -/
theorem writtenBefore_eq_none_iff {n : Nat} {ts : List Traffic} :
    writtenBefore n ts = none ↔ ts.count .read ≤ n := by
  induction ts generalizing n with
  | nil => simp [writtenBefore]
  | cons t ts ih =>
    cases t with
    | wrote byte =>
      have hne : Traffic.wrote byte ≠ .read := nofun
      rw [writtenBefore_wrote, Option.map_eq_none_iff, ih, List.count_cons_of_ne hne]
    | read =>
      rw [List.count_cons_self]
      cases n with
      | zero => simp [writtenBefore]
      | succ n => rw [writtenBefore, ih, Nat.add_le_add_iff_right]

theorem Input.read_allowed_nil (n : Nat) :
    Input.read ⟨[], some (n + 1)⟩ = .ok none ⟨[], some n⟩ := rfl

theorem Input.read_allowed_cons (b : UInt8) (bytes : List UInt8) (n : Nat) :
    Input.read ⟨b :: bytes, some (n + 1)⟩ = .ok (some b) ⟨bytes, some n⟩ := rfl

namespace Machine

def trafficView (exchange? : Machine → Option Exchange) (m : Machine) : Option Traffic :=
  match exchange? m with
  | some .read => some .read
  | some .write =>
    if 0 ≤ m.tape.pointer then some (.wrote (byteOf (m.tape.cell m.tape.pointer))) else none
  | none => none

/-- The machines are the same, with `rest` unread and `written` written, but that the second one is
interrupted after `n` more reads. -/
def Allowed (rest written : List UInt8) (n : Nat) : Machine → Machine → Prop :=
  Beside fun a b => a.input = .ofBytes rest ∧ a.output.bytes.toList = written ∧
    b = { a with input := ⟨rest, some n⟩ }

/-- The second run is interrupted if the first one, whose traffic is `ts`, makes more than `n` reads. It
has then written the same bytes after `written`, and has read the first `n` bytes of `rest`. -/
def InterruptedAt (rest written : List UInt8) (n : Nat) (ts : List Traffic) (e e' : Ending) : Prop :=
  match writtenBefore n ts with
  | some ws => e'.halt = .faulted .interrupted ∧ e'.machine.output.bytes.toList = written ++ ws ∧
      e'.machine.input = ⟨rest.drop n, some 0⟩
  | none => e'.halt = e.halt

variable {rest written : List UInt8} {n : Nat} {ts : List Traffic} {m c : Machine} {e e' : Ending}
  {ready : Execution Bool} {act' : Execution Unit} {exchange? : Machine → Option Exchange}

/-! ### Steps -/

theorem Allowed.input (h : Allowed rest written n m c) : m.input = .ofBytes rest := h.channels.1

theorem Allowed.output (h : Allowed rest written n m c) : m.output.bytes.toList = written :=
  h.channels.2.1

theorem Allowed.eq (h : Allowed rest written n m c) : c = { m with input := ⟨rest, some n⟩ } := by
  have hc := Beside.eq h
  rw [h.channels.2.2] at hc
  exact hc

theorem Allowed.of_eq (hin : m.input = .ofBytes rest) (hout : m.output.bytes.toList = written)
    (hc : c = { m with input := ⟨rest, some n⟩ }) : Allowed rest written n m c :=
  Beside.of_eq ⟨hin, hout, by rw [hc]; rfl⟩ (by rw [hc]; rfl)

/-- A read that is allowed uses up one byte, if there is one left. -/
theorem Allowed.outcome_readCell (h : Allowed rest written (n + 1) m c) :
    Outcome (Allowed (rest.drop 1) written n) (readCell m) (readCell c) := by
  have hread : Outcome (Allowed (rest.drop 1) written n) (read m) (read c) := by
    rw [h.eq]
    cases rest with
    | nil =>
      have hm : m.input.read = .ok none (.ofBytes []) := by
        rw [h.input]
        exact Source.read_ofBytes_nil
      rw [read_of_ok hm, read_of_ok (m := { m with input := ⟨[], some (n + 1)⟩ })
        (Input.read_allowed_nil n)]
      exact .ok _ (.of_eq rfl h.output rfl)
    | cons b rest =>
      have hm : m.input.read = .ok (some b) (.ofBytes rest) := by
        rw [h.input]
        exact Source.read_ofBytes_cons b rest
      rw [read_of_ok hm, read_of_ok (m := { m with input := ⟨b :: rest, some (n + 1)⟩ })
        (Input.read_allowed_cons b rest n)]
      exact .ok _ (.of_eq rfl h.output rfl)
  exact hread.bind fun v => (inward_beside _).onSet v

/-- A read that is not allowed leaves the machine as it is. -/
theorem Allowed.readCell_eq (h : Allowed rest written 0 m c) :
    readCell c = .error .interrupted c := by
  rw [h.eq]
  exact readCell_of_interrupt rfl

theorem Allowed.outcome_writeCell (h : Allowed rest written n m c) (hp : 0 ≤ m.tape.pointer) :
    Outcome (Allowed rest (written ++ [byteOf (m.tape.cell m.tape.pointer)]) n)
      (writeCell m) (writeCell c) := by
  rw [writeCell_of_nonneg hp, h.eq, writeCell_of_nonneg (m := { m with input := ⟨rest, some n⟩ }) hp]
  refine .ok () (.of_eq h.input ?_ rfl)
  rw [Output.bytes_push, Array.toList_push, h.output]

theorem Allowed.outcome_writeCell_of_neg (h : Allowed rest written n m c) (hp : m.tape.pointer < 0) :
    Outcome (Allowed rest written n) (writeCell m) (writeCell c) := by
  have hc := writeCell_of_neg (m := { m with input := ⟨rest, some n⟩ }) hp
  rw [writeCell_of_neg hp, h.eq, hc]
  exact .error _ (h.eq ▸ h)

/-! ### What is passed -/

theorem trafficView_of_none (h : exchange? m = none) : trafficView exchange? m = none := by
  rw [trafficView, h]

theorem trafficView_of_read (h : exchange? m = some .read) :
    trafficView exchange? m = some .read := by
  rw [trafficView, h]

theorem trafficView_of_write (h : exchange? m = some .write) (hp : 0 ≤ m.tape.pointer) :
    trafficView exchange? m = some (.wrote (byteOf (m.tape.cell m.tape.pointer))) := by
  rw [trafficView, h]
  exact if_pos hp

theorem trafficView_of_neg (h : exchange? m = some .write) (hp : m.tape.pointer < 0) :
    trafficView exchange? m = none := by
  rw [trafficView, h]
  exact if_neg (Int.not_le.2 hp)

/-- After a step, both machines are where the traffic has brought them, unless it was the read in place
of which the interrupt comes. -/
inductive Passed (rest written : List UInt8) :
    (n : Nat) → Option Traffic → EStateM.Result Fault Machine Unit →
      EStateM.Result Fault Machine Unit → Machine → Prop
  | nothing {n : Nat} {x y : EStateM.Result Fault Machine Unit} {c : Machine}
      (h : Outcome (Allowed rest written n) x y) : Passed rest written n none x y c
  | wrote {n : Nat} {b : UInt8} {x y : EStateM.Result Fault Machine Unit} {c : Machine}
      (h : Outcome (Allowed rest (written ++ [b]) n) x y) :
      Passed rest written n (some (.wrote b)) x y c
  | read {n : Nat} {x y : EStateM.Result Fault Machine Unit} {c : Machine}
      (h : Outcome (Allowed (rest.drop 1) written n) x y) :
      Passed rest written (n + 1) (some .read) x y c
  | interrupted {x : EStateM.Result Fault Machine Unit} {c : Machine} :
      Passed rest written 0 (some .read) x (.error .interrupted c) c

theorem Conducted.passed (h : Conducted ready act' exchange?) (hmc : Allowed rest written n m c) :
    Passed rest written n (trafficView exchange? m) (act' m) (act' c) c := by
  have hR : Inward (Allowed rest written n) := inward_beside _
  match he : exchange? m with
  | none =>
    rw [trafficView_of_none he]
    exact .nothing (h.inward hR hmc he)
  | some .read =>
    rw [trafficView_of_read he, h.read he, h.read (h.same hR hmc ▸ he)]
    cases n with
    | zero =>
      rw [bind_of_error hmc.readCell_eq]
      exact .interrupted
    | succ n => exact .read (hmc.outcome_readCell.bind fun _ => (inward_beside _).respects_advance)
  | some .write =>
    rw [h.write he, h.write (h.same hR hmc ▸ he)]
    rcases Int.lt_or_le m.tape.pointer 0 with hp | hp
    · rw [trafficView_of_neg he hp]
      exact .nothing ((hmc.outcome_writeCell_of_neg hp).bind fun _ => hR.respects_advance)
    · rw [trafficView_of_write he hp]
      exact .wrote ((hmc.outcome_writeCell hp).bind fun _ => (inward_beside _).respects_advance)

/-! ### Runs -/

theorem interruptedAt_of_nothing (h : e'.halt = e.halt) : InterruptedAt rest written n [] e e' := by
  cases n <;> exact h

theorem InterruptedAt.wrote {b : UInt8} (h : InterruptedAt rest (written ++ [b]) n ts e e') :
    InterruptedAt rest written n (.wrote b :: ts) e e' := by
  unfold InterruptedAt at h ⊢
  rw [writtenBefore_wrote]
  cases hws : writtenBefore n ts with
  | none =>
    rw [hws] at h
    exact h
  | some ws =>
    rw [hws] at h
    obtain ⟨hh, hout, hin⟩ := h
    exact ⟨hh, hout.trans (List.append_assoc _ _ _), hin⟩

theorem InterruptedAt.read (h : InterruptedAt (rest.drop 1) written n ts e e') :
    InterruptedAt rest written (n + 1) (.read :: ts) e e' := by
  unfold InterruptedAt at h ⊢
  rw [List.drop_drop, Nat.add_comm] at h
  exact h

/-- A run goes with one that is interrupted, up to the read in place of which the interrupt comes. -/
theorem Conducted.interrupts (h : Conducted ready act' exchange?) (fuel : Nat)
    (hmc : Allowed rest written n m c) :
    InterruptedAt rest written n (watch ready act' (trafficView exchange?) fuel m)
      (iterate (counted ready act') fuel m) (iterate (counted ready act') fuel c) := by
  induction fuel generalizing rest written n m c with
  | zero => exact interruptedAt_of_nothing rfl
  | succ fuel ih =>
    have hdue : Outcome (Allowed rest written n) (due ready m) (due ready c) :=
      respects_due (h.ready (inward_beside _)) (timed_beside _).respects_tick m c hmc
    generalize hm : due ready m = x at hdue
    generalize hc : due ready c = y at hdue
    cases hdue with
    | error f hmc' =>
      rw [iterate_of_faulted hm, iterate_of_faulted hc, watch_of_faulted hm]
      exact interruptedAt_of_nothing rfl
    | @ok m₁ c₁ b hmc' =>
      cases b with
      | false =>
        rw [iterate_of_finished hm, iterate_of_finished hc, watch_of_finished hm]
        exact interruptedAt_of_nothing rfl
      | true =>
        have hpassed := h.passed hmc'
        rw [iterate_of_due hm, iterate_of_due hc, watch_of_due hm]
        generalize trafficView exchange? m₁ = t at hpassed ⊢
        generalize act' m₁ = x at hpassed ⊢
        generalize act' c₁ = y at hpassed ⊢
        cases hpassed with
        | nothing h' =>
          rcases h' with ⟨u, h'⟩ | ⟨f, h'⟩
          · exact ih h'
          · exact interruptedAt_of_nothing rfl
        | wrote h' =>
          refine InterruptedAt.wrote ?_
          rcases h' with ⟨u, h'⟩ | ⟨f, h'⟩
          · exact ih h'
          · exact interruptedAt_of_nothing rfl
        | read h' =>
          refine InterruptedAt.read ?_
          rcases h' with ⟨u, h'⟩ | ⟨f, h'⟩
          · exact ih h'
          · exact interruptedAt_of_nothing rfl
        | interrupted =>
          refine ⟨rfl, ?_, ?_⟩
          · show c₁.output.bytes.toList = written ++ []
            rw [hmc'.eq, List.append_nil]
            exact hmc'.output
          · show c₁.input = ⟨rest, some 0⟩
            rw [hmc'.eq]

theorem InterruptedAt.close (h : InterruptedAt rest written n ts e e') :
    InterruptedAt rest written n ts e.close e'.close := by
  unfold InterruptedAt at h ⊢
  simpa only [Ending.halt_close, Ending.bytes_close, Ending.input_close] using h

theorem allowed_start (settings : Settings) (bytes : List UInt8) (n : Nat) :
    Allowed bytes [] n (.start settings (.ofBytes bytes) .streaming)
      (.start settings ⟨bytes, some n⟩ .streaming) :=
  .of_eq rfl rfl rfl

end Machine

open Machine

/-! ### Programs -/

/-- The traffic of the compiled program in `text`. -/
def trafficOfSource (text : String) (settings : Settings) (bytes : List UInt8) (patience : Nat) :
    List Traffic :=
  let m := Machine.start settings (.ofBytes bytes) .streaming
  match Program.compile text settings.linear with
  | .ok p =>
    watch (settle p.code) (act p.code) (trafficView (Machine.exchange? p.code))
      (m.stepBound?.getD patience) m
  | .error _ => []

/-- The traffic of the reference. -/
def trafficOfReference (text : String) (settings : Settings) (bytes : List UInt8) (patience : Nat) :
    List Traffic :=
  let m := Machine.start settings (.ofBytes bytes) .streaming
  let symbols := (Symbol.ofText text).toArray
  match pairBrackets (Symbol.ofText text) with
  | .ok pairs =>
    watch (Reference.ready symbols) (Reference.next (Reference.perform pairs) symbols)
      (trafficView (Reference.exchange? symbols)) (m.stepBound?.getD patience) m
  | .error _ => []

section
variable {text : String} {settings : Settings}

theorem interrupts_source {p : Program} (hp : Program.compile text settings.linear = .ok p)
    (bytes : List UInt8) (n patience : Nat) : ∃ e e',
    runSource text settings (.ofBytes bytes) .streaming patience = .ok e ∧
      runSource text settings ⟨bytes, some n⟩ .streaming patience = .ok e' ∧
      InterruptedAt bytes [] n (trafficOfSource text settings bytes patience) e e' := by
  simp only [trafficOfSource, runSource, hp]
  exact ⟨_, _, rfl, rfl,
    ((conducted_code p.code).interrupts _ (allowed_start settings bytes n)).close⟩

theorem interrupts_reference {pairs : BracketPairs}
    (hp : pairBrackets (Symbol.ofText text) = .ok pairs) (settings : Settings) (bytes : List UInt8)
    (n patience : Nat) : ∃ e e',
    runReference text settings (.ofBytes bytes) .streaming patience = .ok e ∧
      runReference text settings ⟨bytes, some n⟩ .streaming patience = .ok e' ∧
      InterruptedAt bytes [] n (trafficOfReference text settings bytes patience) e e' := by
  have hruns := fun fuel => ((conducted_reference (Symbol.ofText text).toArray pairs).interrupts fuel
    (allowed_start settings bytes n)).close
  rw [← Reference.step_eq_counted] at hruns
  simp only [trafficOfReference, runReference, Reference.run, hp]
  exact ⟨_, _, rfl, rfl, hruns _⟩

end

/-! ### Reading a program -/

namespace Source

/-- How many reads it takes to read a program: its bytes, and the `!` or the end of the input. -/
def programReads (bytes : List UInt8) : Nat := (bytes.takeWhile (· != sentinelByte)).length + 1

/-- What is left unread after a program. -/
theorem drop_programReads (bytes : List UInt8) :
    bytes.drop (programReads bytes) = (splitBytes bytes).2 := by
  have hsplit : (bytes.takeWhile (· != sentinelByte) ++ bytes.dropWhile (· != sentinelByte)).drop
      (bytes.takeWhile (· != sentinelByte)).length = bytes.dropWhile (· != sentinelByte) :=
    List.drop_left
  rw [List.takeWhile_append_dropWhile] at hsplit
  rw [programReads, ← List.drop_drop, hsplit, splitBytes]

theorem readBytes_allowed (read : Array UInt8) (bytes : List UInt8) (n : Nat) :
    readBytes read ⟨bytes, some n⟩ =
      if n < programReads bytes then .error .interrupted ⟨bytes.drop n, some 0⟩
      else .ok (read ++ (bytes.takeWhile (· != sentinelByte)).toArray)
        ⟨bytes.drop (programReads bytes), some (n - programReads bytes)⟩ := by
  induction bytes generalizing read n with
  | nil =>
    rw [readBytes]
    cases n with
    | zero => rfl
    | succ n => simp [Input.read_allowed_nil, programReads]
  | cons b bytes ih =>
    rw [readBytes]
    cases n with
    | zero => rfl
    | succ n =>
      simp only [Input.read_allowed_cons]
      by_cases hb : b = sentinelByte
      · rw [if_pos hb]
        simp [hb, programReads]
      · rw [if_neg hb, ih]
        simp [hb, programReads]

theorem readProgram_allowed (bytes : List UInt8) (n : Nat) :
    readProgram ⟨bytes, some n⟩ =
      if n < programReads bytes then .error .interrupted ⟨bytes.drop n, some 0⟩
      else .ok (splitBytes bytes).1
        ⟨bytes.drop (programReads bytes), some (n - programReads bytes)⟩ := by
  rw [readProgram, readBytes_allowed]
  split_ifs with hn
  · rfl
  · simp [splitBytes]

end Source

end TapeFold
