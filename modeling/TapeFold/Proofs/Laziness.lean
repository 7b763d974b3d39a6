import TapeFold.Proofs.Exchange
import TapeFold.Proofs.Marking

/-!
# Input is read lazily

A machine that has more input than another, and reads another value after it, goes the same way as
long as the other does not read beyond its input (`Machine.Conducted.match_ahead`). So a run that
executes no more reads than it has bytes ends in the same way whatever follows these bytes
(`unread_input_unobservable`).
-/

namespace TapeFold

/-- The settings with another value after the end of the input. -/
def Settings.withEof (s : Settings) (eofValue : Int) : Settings := { s with eofValue }

namespace Machine

/-- How many reads a run executes. -/
def readCount (ready : Execution Bool) (act : Execution Unit)
    (exchange? : Machine → Option Exchange) (patience : Nat) (m : Machine) : Nat :=
  (watch ready act (readView exchange?) (m.stepBound?.getD patience) m).length

/-- The machine with other input, and another value after its end. -/
def supplied (m : Machine) (bytes : List UInt8) (eofValue : Int) : Machine :=
  { m with input := .ofBytes bytes, eofValue }

/-- The machines are the same but that `extra` follows the input `rest` of the first one, and `eof` is
read after that. -/
def Ahead (rest extra : List UInt8) (eof : Int) : Machine → Machine → Prop :=
  Beside fun a b => a.input = .ofBytes rest ∧
    b = { a with input := .ofBytes (rest ++ extra), eofValue := eof }

end Machine

open Machine

/-- How many reads the compiled program in `text` executes. -/
def readsOfSource (text : String) (settings : Settings) (input : Input) (output : Output)
    (patience : Nat) : Except BracketError Nat :=
  (Program.compile text settings.linear).map fun p =>
    readCount (settle p.code) (act p.code) (Machine.exchange? p.code) patience
      (.start settings input output)

/-- How many reads the reference executes. -/
def readsOfReference (text : String) (settings : Settings) (input : Input) (output : Output)
    (patience : Nat) : Except BracketError Nat :=
  let symbols := (Symbol.ofText text).toArray
  (pairBrackets (Symbol.ofText text)).map fun pairs =>
    readCount (Reference.ready symbols) (Reference.next (Reference.perform pairs) symbols)
      (Reference.exchange? symbols) patience (.start settings input output)

/-- A run on `x` leaves the bytes unread that it has not executed a read for. If there are enough of
them it ends in the same way on `x ++ y`, whatever is read after the end. -/
def IgnoresUnread (reads : Except BracketError Nat) (run : Except BracketError Ending)
    (longer : Except BracketError Ending) (x y : List UInt8) (eof : Int) : Prop :=
  ∃ k e, reads = .ok k ∧ run = .ok e ∧ (k ≤ x.length → e.machine.input = .ofBytes (x.drop k) ∧
    longer = .ok ⟨e.machine.supplied ((x ++ y).drop k) eof, e.halt⟩)

namespace Machine
variable {rest extra : List UInt8} {eof : Int} {m c : Machine} {e e' : Ending}

/-! ### What is ahead stays so -/

theorem Ahead.input (h : Ahead rest extra eof m c) : m.input = .ofBytes rest := h.channels.1

theorem Ahead.eq (h : Ahead rest extra eof m c) : c = m.supplied (rest ++ extra) eof := by
  have hc := Beside.eq h
  rw [h.channels.2] at hc
  exact hc

theorem respects_writeCell_ahead (rest extra : List UInt8) (eof : Int) :
    Respects (Ahead rest extra eof) writeCell := by
  refine (inward_beside _).onGet.bind fun v => ?_
  rintro m _ ⟨h, rfl⟩
  exact .ok () (Beside.of_eq ⟨h, rfl⟩ rfl)

/-- A byte that both machines have is read by both. -/
theorem Ahead.outcome_readCell {b : UInt8} (h : Ahead (b :: rest) extra eof m c) :
    Outcome (Ahead rest extra eof) (readCell m) (readCell c) := by
  have hm : m.input.read = .ok (some b) (.ofBytes rest) := by
    rw [h.input]
    rfl
  have hread : Outcome (Ahead rest extra eof) (read m) (read c) := by
    rw [h.eq, read_of_ok hm, read_of_ok (m := m.supplied _ _) (b := some b) rfl]
    exact .ok _ (Beside.of_eq ⟨rfl, rfl⟩ rfl)
  exact hread.bind fun v => (inward_beside _).onSet v

/-! ### Runs -/

section
variable {ready : Execution Bool} {act' : Execution Unit} {exchange? : Machine → Option Exchange}
  {x y : List UInt8}

/-- A step on a machine that is ahead leaves it ahead, of one byte less if it reads. -/
theorem Conducted.outcome_ahead (h : Conducted ready act' exchange?) (seen : List Unit)
    (hmc : Ahead (x.drop seen.length) y eof m c)
    (hlen : (seen ++ (readView exchange? m).toList).length ≤ x.length) :
    Outcome (Ahead (x.drop (seen ++ (readView exchange? m).toList).length) y eof)
      (act' m) (act' c) := by
  have hR : Inward (Ahead (x.drop seen.length) y eof) := inward_beside _
  match he : exchange? m with
  | none =>
    have hview : readView exchange? m = none := if_neg (by simp [he])
    rw [hview, Option.toList_none, List.append_nil]
    exact h.inward hR hmc he
  | some .write =>
    have hview : readView exchange? m = none := if_neg (by simp [he])
    rw [hview, Option.toList_none, List.append_nil, h.write he, h.write (h.same hR hmc ▸ he)]
    exact ((respects_writeCell_ahead _ y eof) m c hmc).bind fun _ => hR.respects_advance
  | some .read =>
    have hview : readView exchange? m = some () := if_pos he
    rw [hview, Option.toList_some, List.length_append, List.length_singleton] at hlen ⊢
    rw [h.read he, h.read (h.same hR hmc ▸ he)]
    rw [List.drop_eq_getElem_cons (by omega)] at hmc
    exact hmc.outcome_readCell.bind fun _ => (inward_beside _).respects_advance

/-- As long as no read goes beyond the input, a machine that is ahead stays ahead. -/
theorem Conducted.match_ahead (h : Conducted ready act' exchange?) (fuel : Nat)
    (hmc : Ahead x y eof m c)
    (hlen : (watch ready act' (readView exchange?) fuel m).length ≤ x.length) :
    Ending.Match (Ahead (x.drop (watch ready act' (readView exchange?) fuel m).length) y eof)
      (iterate (counted ready act') fuel m) (iterate (counted ready act') fuel c) := by
  refine match_watch (R := fun seen => Ahead (x.drop seen.length) y eof)
    (fun seen => seen.length ≤ x.length) ?_ ?_ ?_ ?_ fuel [] hmc hlen
  · intro seen more hle
    rw [List.length_append] at hle
    omega
  · exact fun seen => h.ready (inward_beside _)
  · exact fun seen => (timed_beside _).respects_tick
  · exact fun seen m c hmc hle => h.outcome_ahead seen hmc hle

theorem eq_supplied (hm : Ending.Match (Ahead rest extra eof) e e') :
    e' = ⟨e.machine.supplied (rest ++ extra) eof, e.halt⟩ := by
  rw [hm.halt, ← hm.machine.eq]

theorem close_ahead (hm : Ending.Match (Ahead rest extra eof) e e') :
    Ending.Match (Ahead rest extra eof) e.close e'.close := by
  by_cases hh : e.halt = .unfinished
  · rwa [Ending.close_of_unfinished hh, Ending.close_of_unfinished (hm.halt ▸ hh)]
  · refine Beside.close ?_ hm hh
    rintro a _ ⟨h, rfl⟩
    exact ⟨h, rfl⟩

/-- Whatever a machine is ahead by is ignored by a run that does not read beyond its input. -/
theorem Conducted.ignoresUnread (h : Conducted ready act' exchange?) (hmc : Ahead x y eof m c)
    (patience : Nat) :
    IgnoresUnread (.ok (readCount ready act' exchange? patience m))
      (.ok (iterate (counted ready act') (m.stepBound?.getD patience) m).close)
      (.ok (iterate (counted ready act') (c.stepBound?.getD patience) c).close) x y eof := by
  refine ⟨_, _, rfl, rfl, fun hle => ?_⟩
  have hmatch := close_ahead (h.match_ahead _ hmc hle)
  refine ⟨hmatch.machine.input, congrArg Except.ok ?_⟩
  rw [← (timed_beside _).stepBound?_eq hmc, List.drop_append_of_le_length hle]
  exact eq_supplied hmatch

end

theorem ahead_start (settings : Settings) (output : Output) (x y : List UInt8) (eof : Int) :
    Ahead x y eof (.start settings (.ofBytes x) output)
      (.start (settings.withEof eof) (.ofBytes (x ++ y)) output) :=
  Beside.of_eq ⟨rfl, rfl⟩ rfl

end Machine

/-- A run of a balanced program that executes no more reads than it has bytes of input ends in the same
way, on the same tape and with the same written and counted, whatever follows these bytes and whatever
is read after the end; the bytes that no read was executed for are left. That goes for compiled programs
and for the reference. -/
theorem unread_input_unobservable (text : String) (hb : Symbol.Balanced (Symbol.ofText text))
    (settings : Settings) (output : Output) (patience : Nat) (x y : List UInt8) (eof : Int) :
    IgnoresUnread (readsOfSource text settings (.ofBytes x) output patience)
      (runSource text settings (.ofBytes x) output patience)
      (runSource text (settings.withEof eof) (.ofBytes (x ++ y)) output patience) x y eof ∧
    IgnoresUnread (readsOfReference text settings (.ofBytes x) output patience)
      (runReference text settings (.ofBytes x) output patience)
      (runReference text (settings.withEof eof) (.ofBytes (x ++ y)) output patience) x y eof := by
  constructor
  · obtain ⟨p, hp⟩ := (Program.exists_compile_iff text settings.linear).2 hb
    have hp' : Program.compile text (settings.withEof eof).linear = .ok p := hp
    rw [readsOfSource, runSource, runSource, hp, hp']
    exact (conducted_code p.code).ignoresUnread (ahead_start settings output x y eof) patience
  · obtain ⟨pairs, hpairs⟩ := Symbol.balanced_iff.1 hb
    have hignores := (conducted_reference (Symbol.ofText text).toArray pairs).ignoresUnread
      (ahead_start settings output x y eof) patience
    rw [← Reference.step_eq_counted] at hignores
    rw [readsOfReference, runReference, runReference, Reference.run, Reference.run, hpairs]
    exact hignores

/-- A program that stops reading at a zero byte, and then reads once more left of the first cell, does
not notice that a byte follows. -/
theorem unread_byte_unobservable_after_underflow :
    ∃ e, runSource ",[.,]<," {} (.ofBytes [65, 0, 66]) .buffered 20 = .ok e ∧
      e.halt = .faulted (.underflow (-1)) ∧ e.machine.input = .ofBytes [] ∧
      runSource ",[.,]<," { eofValue := 7 } (.ofBytes [65, 0, 66, 67]) .buffered 20 =
        .ok ⟨e.machine.supplied [67] 7, e.halt⟩ := by
  obtain ⟨⟨k, e, hk, he, hsame⟩, -⟩ := unread_input_unobservable ",[.,]<," (by decide) {} .buffered 20
    [65, 0, 66] [67] 7
  have hreads : readsOfSource ",[.,]<," {} (.ofBytes [65, 0, 66]) .buffered 20 = .ok 3 := by
    decide +kernel
  obtain rfl : k = 3 := Except.ok.inj (hk.symm.trans hreads)
  obtain ⟨hrest, hlonger⟩ := hsame (by decide)
  have hrun : (runSource ",[.,]<," {} (.ofBytes [65, 0, 66]) .buffered 20).map (·.halt) =
      .ok (.faulted (.underflow (-1))) := by decide +kernel
  rw [he] at hrun
  exact ⟨e, he, Except.ok.inj hrun, hrest, hlonger⟩

end TapeFold
