import TapeFold.Proofs.Exchange
import TapeFold.Proofs.Marking

/-!
# Streaming and buffering

A machine with an output stream and one without go the same way, and the stream receives the bytes that
the other one buffers: each cell that is written, modulo 256 (`Machine.Conducted.match_streams`). The
stream is flushed after each newline, and once more when the run ends (`streaming_unobservable`).
-/

namespace TapeFold

/-- The lengths of `bytes` just after each newline. -/
def lineEnds (bytes : List UInt8) : List Nat :=
  ((List.range bytes.length).filter fun i => bytes[i]? = some newline).map (· + 1)

namespace Machine

/-- The values of the cells that a run writes. -/
def writtenValues (ready : Execution Bool) (act : Execution Unit)
    (exchange? : Machine → Option Exchange) (patience : Nat) (m : Machine) : List Int :=
  watch ready act (writeView exchange?) (m.stepBound?.getD patience) m

/-- The first machine has streamed what the second one has buffered, which are `bytes`. -/
def Streams (bytes : List UInt8) (flushes : List Nat) : Machine → Machine → Prop :=
  Beside fun a b => a.output = { stream := some ⟨bytes.toArray, flushes.toArray⟩ } ∧
    b = { a with output := { buffer := bytes.toArray } }

end Machine

open Machine

/-- The values of the cells that the compiled program in `text` writes. -/
def valuesOfSource (text : String) (settings : Settings) (input : Input) (output : Output)
    (patience : Nat) : Except BracketError (List Int) :=
  (Program.compile text settings.linear).map fun p =>
    writtenValues (settle p.code) (act p.code) (Machine.exchange? p.code) patience
      (.start settings input output)

/-- The values of the cells that the reference writes. -/
def valuesOfReference (text : String) (settings : Settings) (input : Input) (output : Output)
    (patience : Nat) : Except BracketError (List Int) :=
  let symbols := (Symbol.ofText text).toArray
  (pairBrackets (Symbol.ofText text)).map fun pairs =>
    writtenValues (Reference.ready symbols) (Reference.next (Reference.perform pairs) symbols)
      (Reference.exchange? symbols) patience (.start settings input output)

/-- A streamed run ends as a buffered one that has the same bytes in its buffer, those of the cells
written. Its stream has been flushed at each line end, and at the end if the run has ended. -/
def StreamsAlike (values : Except BracketError (List Int))
    (streamed buffered : Except BracketError Ending) : Prop :=
  ∃ vs e e', values = .ok vs ∧ streamed = .ok e ∧ buffered = .ok e' ∧
    e'.halt = e.halt ∧
    e'.machine = { e.machine with output := { buffer := (vs.map byteOf).toArray } } ∧
    e.machine.output = { stream := some {
      written := (vs.map byteOf).toArray
      flushes := (lineEnds (vs.map byteOf) ++
        if e.halt = .unfinished then [] else [vs.length]).toArray } }

/-- A newline ends a line. -/
theorem lineEnds_append_singleton (bytes : List UInt8) (b : UInt8) :
    lineEnds (bytes ++ [b]) =
      lineEnds bytes ++ if b = newline then [bytes.length + 1] else [] := by
  have hold : (List.range bytes.length).filter (fun i => (bytes ++ [b])[i]? = some newline) =
      (List.range bytes.length).filter fun i => bytes[i]? = some newline := by
    refine List.filter_congr fun i hi => ?_
    rw [List.getElem?_append_left (List.mem_range.1 hi)]
  rw [lineEnds, List.length_append, List.length_singleton, List.range_succ, List.filter_append,
    List.map_append, hold, lineEnds]
  congr 1
  by_cases hb : b = newline
  · simp [hb]
  · simp [hb]

namespace Machine
variable {bytes : List UInt8} {flushes : List Nat} {m c : Machine} {e e' : Ending}

/-- A cell is written as its value modulo 256, which is a byte for a negative cell too. -/
theorem toNat_byteOf (value : Int) : ((byteOf value).toNat : Int) = value % 256 := by
  have h₁ := Int.emod_nonneg value (b := 256) (by decide)
  have h₂ := Int.emod_lt_of_pos value (b := 256) (by decide)
  rw [byteOf, UInt8.toNat_ofNat']
  omega

/-! ### Streams and buffers go together -/

theorem respects_readCell_streams (bytes : List UInt8) (flushes : List Nat) :
    Respects (Streams bytes flushes) readCell := by
  refine Respects.bind ?_ fun v => (inward_beside _).onSet v
  refine respects_read ?_
  rintro m _ ⟨h, rfl⟩
  exact ⟨rfl, rfl, fun input => Beside.of_eq ⟨h, rfl⟩ rfl⟩

/-- A newline flushes the stream that it is written to. -/
theorem push_streamed (bytes : List UInt8) (b : UInt8) :
    (Output.mk #[] (some ⟨bytes.toArray, (lineEnds bytes).toArray⟩)).push b =
      ⟨#[], some ⟨(bytes ++ [b]).toArray, (lineEnds (bytes ++ [b])).toArray⟩⟩ := by
  rw [lineEnds_append_singleton]
  by_cases hb : b = newline
  · simp [Output.push, Stream.push, Stream.flush, hb]
  · simp [Output.push, Stream.push, hb]

theorem push_buffered (bytes : List UInt8) (b : UInt8) :
    (Output.mk bytes.toArray none).push b = ⟨(bytes ++ [b]).toArray, none⟩ := by
  simp [Output.push]

theorem Streams.push (h : Streams bytes (lineEnds bytes) m c) (b : UInt8) :
    Streams (bytes ++ [b]) (lineEnds (bytes ++ [b])) { m with output := m.output.push b }
      { c with output := c.output.push b } := by
  obtain ⟨ho, rfl⟩ := h
  have ho' : m.output = ⟨#[], some ⟨bytes.toArray, (lineEnds bytes).toArray⟩⟩ := ho
  refine Beside.of_eq ⟨?_, ?_⟩ rfl
  · show m.output.push b = _
    rw [ho', push_streamed]
  · rw [← push_buffered]
    rfl

theorem Streams.withTape (h : Streams bytes flushes m c) (t : Tape) :
    Streams bytes flushes { m with tape := t } { c with tape := t } := by
  obtain ⟨ho, rfl⟩ := h
  exact Beside.of_eq ⟨ho, rfl⟩ rfl

theorem Streams.tape (h : Streams bytes flushes m c) : c.tape = m.tape := by
  obtain ⟨-, -⟩ := h
  rfl

theorem Streams.outcome_writeCell_of_neg (h : Streams bytes flushes m c) (hp : m.tape.pointer < 0) :
    Outcome (Streams bytes flushes) (writeCell m) (writeCell c) := by
  rw [writeCell_of_neg hp, writeCell_of_neg (h.tape ▸ hp), h.tape]
  exact .error _ h

/-- Both machines write the cell under the pointer. -/
theorem Streams.outcome_writeCell (h : Streams bytes (lineEnds bytes) m c)
    (hp : 0 ≤ m.tape.pointer) :
    Outcome (Streams (bytes ++ [byteOf (m.tape.cell m.tape.pointer)])
      (lineEnds (bytes ++ [byteOf (m.tape.cell m.tape.pointer)]))) (writeCell m) (writeCell c) := by
  rw [writeCell_of_nonneg hp, writeCell_of_nonneg (h.tape ▸ hp), h.tape]
  exact .ok () ((h.withTape _).push _)

/-! ### Runs -/

section
variable {ready : Execution Bool} {act' : Execution Unit} {exchange? : Machine → Option Exchange}

/-- A step adds the cell that it writes to both outputs. -/
theorem Conducted.outcome_streams (h : Conducted ready act' exchange?) (seen : List Int)
    (hmc : Streams (seen.map byteOf) (lineEnds (seen.map byteOf)) m c) :
    let now := seen ++ (writeView exchange? m).toList
    Outcome (Streams (now.map byteOf) (lineEnds (now.map byteOf))) (act' m) (act' c) := by
  have hR : Inward (Streams (seen.map byteOf) (lineEnds (seen.map byteOf))) := inward_beside _
  show Outcome (Streams ((seen ++ (writeView exchange? m).toList).map byteOf)
    (lineEnds ((seen ++ (writeView exchange? m).toList).map byteOf))) _ _
  match he : exchange? m with
  | none =>
    have hview : writeView exchange? m = none := if_neg (by simp [he])
    rw [hview, Option.toList_none, List.append_nil]
    exact h.inward hR hmc he
  | some .read =>
    have hview : writeView exchange? m = none := if_neg (by simp [he])
    rw [hview, Option.toList_none, List.append_nil, h.read he, h.read (h.same hR hmc ▸ he)]
    exact (respects_readCell_streams _ _ m c hmc).bind fun _ => hR.respects_advance
  | some .write =>
    rw [h.write he, h.write (h.same hR hmc ▸ he)]
    rcases Int.lt_or_le m.tape.pointer 0 with hp | hp
    · have hview : writeView exchange? m = none := if_neg (by omega)
      rw [hview, Option.toList_none, List.append_nil]
      exact (hmc.outcome_writeCell_of_neg hp).bind fun _ => hR.respects_advance
    · have hview : writeView exchange? m = some (m.tape.cell m.tape.pointer) := if_pos ⟨he, hp⟩
      rw [hview, Option.toList_some, List.map_append, List.map_singleton]
      exact (hmc.outcome_writeCell hp).bind fun _ => (inward_beside _).respects_advance

/-- A run streams on the first machine what it buffers on the second one, and both end alike. -/
theorem Conducted.match_streams (h : Conducted ready act' exchange?) (fuel : Nat)
    (hmc : Streams [] [] m c) :
    let values := watch ready act' (writeView exchange?) fuel m
    Ending.Match (Streams (values.map byteOf) (lineEnds (values.map byteOf)))
      (iterate (counted ready act') fuel m) (iterate (counted ready act') fuel c) := by
  refine match_watch (R := fun seen => Streams (seen.map byteOf) (lineEnds (seen.map byteOf)))
    (fun _ => True) ?_ ?_ ?_ ?_ fuel [] hmc trivial
  · exact fun _ _ _ => trivial
  · exact fun seen => h.ready (inward_beside _)
  · exact fun seen => (timed_beside _).respects_tick
  · exact fun seen m c hmc _ => h.outcome_streams seen hmc

/-- The end of a run flushes the stream and leaves the buffer alone. -/
theorem close_streams (hm : Ending.Match (Streams bytes flushes) e e') :
    Ending.Match (Streams bytes (flushes ++ if e.halt = .unfinished then [] else [bytes.length]))
      e.close e'.close := by
  by_cases hh : e.halt = .unfinished
  · rw [if_pos hh, List.append_nil, Ending.close_of_unfinished hh,
      Ending.close_of_unfinished (hm.halt ▸ hh)]
    exact hm
  · rw [if_neg hh]
    refine Beside.close ?_ hm hh
    rintro a _ ⟨ho, rfl⟩
    refine ⟨?_, rfl⟩
    rw [ho]
    simp [Output.flush, Stream.flush]

theorem Conducted.streamsAlike (h : Conducted ready act' exchange?) (hmc : Streams [] [] m c)
    (patience : Nat) :
    StreamsAlike (.ok (writtenValues ready act' exchange? patience m))
      (.ok (iterate (counted ready act') (m.stepBound?.getD patience) m).close)
      (.ok (iterate (counted ready act') (c.stepBound?.getD patience) c).close) := by
  have hmatch := close_streams (h.match_streams (m.stepBound?.getD patience) hmc)
  rw [List.length_map] at hmatch
  obtain ⟨ho, hc⟩ := hmatch.machine.channels
  refine ⟨_, _, _, rfl, rfl, rfl, ?_, ?_, ?_⟩
  · rw [← (timed_beside _).stepBound?_eq hmc]
    exact hmatch.halt.symm
  · rw [← (timed_beside _).stepBound?_eq hmc, hmatch.machine.eq, hc]
    rfl
  · rw [Ending.halt_close]
    exact ho

end

theorem streams_start (settings : Settings) (input : Input) :
    Streams [] [] (.start settings input .streaming) (.start settings input .buffered) :=
  Beside.of_eq ⟨rfl, rfl⟩ rfl

end Machine

section
variable {text : String}

theorem streamsAlike_source {p : Program} {settings : Settings}
    (hp : Program.compile text settings.linear = .ok p) (input : Input) (patience : Nat) :
    StreamsAlike (valuesOfSource text settings input .streaming patience)
      (runSource text settings input .streaming patience)
      (runSource text settings input .buffered patience) := by
  rw [valuesOfSource, runSource, runSource, hp]
  exact (conducted_code p.code).streamsAlike (streams_start settings input) patience

theorem streamsAlike_reference {pairs : BracketPairs}
    (hp : pairBrackets (Symbol.ofText text) = .ok pairs) (settings : Settings) (input : Input)
    (patience : Nat) :
    StreamsAlike (valuesOfReference text settings input .streaming patience)
      (runReference text settings input .streaming patience)
      (runReference text settings input .buffered patience) := by
  have hstreams := (conducted_reference (Symbol.ofText text).toArray pairs).streamsAlike
    (streams_start settings input) patience
  rw [← Reference.step_eq_counted] at hstreams
  rw [valuesOfReference, runReference, runReference, Reference.run, Reference.run, hp]
  exact hstreams

end

/-- A run of a balanced program with an output stream and one without end in the same way, on the same
tape and with the same read and counted. The one streams what the other buffers, the cells that it writes
modulo 256, and flushes the stream after each newline and at its end, however it ends. That goes for
compiled programs and for the reference. -/
theorem streaming_unobservable (text : String) (hb : Symbol.Balanced (Symbol.ofText text))
    (settings : Settings) (input : Input) (patience : Nat) :
    StreamsAlike (valuesOfSource text settings input .streaming patience)
      (runSource text settings input .streaming patience)
      (runSource text settings input .buffered patience) ∧
    StreamsAlike (valuesOfReference text settings input .streaming patience)
      (runReference text settings input .streaming patience)
      (runReference text settings input .buffered patience) ∧
    ∀ value : Int, ((byteOf value).toNat : Int) = value % 256 := by
  obtain ⟨p, hp⟩ := (Program.exists_compile_iff text settings.linear).2 hb
  obtain ⟨pairs, hpairs⟩ := Symbol.balanced_iff.1 hb
  exact ⟨streamsAlike_source hp input patience, streamsAlike_reference hpairs settings input patience,
    toNat_byteOf⟩

/-- A negative cell is written as 255 and a newline as itself, with a flush after it; the underflow that
ends the run flushes the stream once more. -/
theorem streams_newline_and_negative_before_underflow : ∃ e e',
    runSource "-.+++++++++++.-.<." {} (.ofBytes []) .streaming 20 = .ok e ∧
    runSource "-.+++++++++++.-.<." {} (.ofBytes []) .buffered 20 = .ok e' ∧
    e'.halt = .faulted (.underflow (-1)) ∧ e'.halt = e.halt ∧
    e'.machine = { e.machine with output := ⟨#[255, 10, 9], none⟩ } ∧
    e.machine.output = ⟨#[], some ⟨#[255, 10, 9], #[2, 3]⟩⟩ := by
  obtain ⟨⟨vs, e, e', hvs, he, he', hhalt, hbuffer, hstream⟩, -⟩ :=
    streaming_unobservable "-.+++++++++++.-.<." (by decide) {} (.ofBytes []) 20
  have hvalues : valuesOfSource "-.+++++++++++.-.<." {} (.ofBytes []) .streaming 20 =
      .ok [-1, 10, 9] := by decide +kernel
  obtain rfl : vs = [-1, 10, 9] := Except.ok.inj (hvs.symm.trans hvalues)
  have hrun : (runSource "-.+++++++++++.-.<." {} (.ofBytes []) .buffered 20).map (·.halt) =
      .ok (.faulted (.underflow (-1))) := by decide +kernel
  rw [he'] at hrun
  have hend : e'.halt = .faulted (.underflow (-1)) := Except.ok.inj hrun
  refine ⟨e, e', he, he', hend, hhalt, hbuffer, ?_⟩
  rw [hstream, ← hhalt, hend]
  decide

end TapeFold
