import TapeFold.Proofs.Invocation
import TapeFold.Proofs.Interruption

/-!
# Interrupted invocations

An invocation may be interrupted in place of any read of its standard input. While its program runs, it
reports so with what the program has written before (`CommandLine.interrupted_at_read`). While its program
is still being read, nothing catches the interrupt
(`CommandLine.escapes_when_program_is_interrupted`).
-/

namespace TapeFold

open Machine

namespace CommandLine

/-- The invocation whose standard input is interrupted after `n` reads. -/
def Surroundings.interrupted (s : Surroundings) (n : Nat) : Surroundings :=
  { s with stdin := { s.stdin with allowance := some n } }

/-- How many reads of standard input it takes to get the program. -/
def Options.programReads (o : Options) (bytes : List UInt8) : Nat :=
  match o.path? with
  | some _ => 0
  | none => Source.programReads bytes

/-- The traffic of what is done with the program. -/
def Options.traffic (o : Options) (settings : Settings) (text : String) (bytes : List UInt8)
    (patience : Nat) : List Traffic :=
  if o.naive then trafficOfReference text settings bytes patience
  else if o.dump.isSome then [] else trafficOfSource text settings bytes patience

/-- What passes between an invocation and its standard input and output: the reads that get the program,
and then its own traffic. -/
def traffic (s : Surroundings) (o : Options) (settings : Settings) (patience : Nat) : List Traffic :=
  match loadProgram s o with
  | .ok text input =>
    List.replicate (o.programReads s.stdin.rest) .read ++ o.traffic settings text input.rest patience
  | .error _ _ => []

/-- The report on an interrupt that has left `rest` unread, with `written` written before it. -/
structure Report.Interrupted (r : Report) (written rest : List UInt8) : Prop where
  exitCode : r.exitCode.toNat = 130
  stdout : r.stdout = written
  stdin : r.stdin = ⟨rest, some 0⟩

/-- No interrupt has come. -/
structure Undisturbed (x : Except Crash Report) : Prop where
  caught : ∀ r, x = .ok r → r.exitCode.toNat ≠ 130
  uncaught : x ≠ .error (.fault .interrupted)

variable {s : Surroundings} {o : Options} {settings : Settings} {text : String} {e : Ending}
  {bytes : List UInt8} {n patience : Nat} {events : List Event} {input : Input}

theorem loadProgram_of_ok (hin : s.stdin = .ofBytes bytes) (h : loadProgram s o = .ok text input) :
    input = .ofBytes (bytes.drop (o.programReads bytes)) ∧
      loadProgram (s.interrupted n) o =
        if n < o.programReads bytes then .error (.inl .interrupted) ⟨bytes.drop n, some 0⟩
        else .ok text ⟨bytes.drop (o.programReads bytes), some (n - o.programReads bytes)⟩ := by
  cases hpath : o.path? with
  | some path =>
    have hreads : o.programReads bytes = 0 := by rw [Options.programReads, hpath]
    rw [hreads]
    simp only [loadProgram, hpath, hin, Surroundings.interrupted] at h ⊢
    split at h <;> cases h
    simp [Input.ofBytes]
  | none =>
    have hreads : o.programReads bytes = Source.programReads bytes := by
      rw [Options.programReads, hpath]
    rw [hreads, Source.drop_programReads]
    simp only [loadProgram, hpath, hin, Surroundings.interrupted, Source.readProgram_ofBytes] at h ⊢
    cases h
    refine ⟨rfl, ?_⟩
    simp only [Input.ofBytes, Source.readProgram_allowed, Source.drop_programReads]
    split_ifs <;> rfl

theorem loadProgram_of_error {f : Interrupt ⊕ FileError} (hin : s.stdin = .ofBytes bytes)
    (h : loadProgram s o = .error f input) :
    ∃ f', loadProgram (s.interrupted n) o = .error (.inr f') ⟨bytes, some n⟩ := by
  cases hpath : o.path? with
  | some path =>
    simp only [loadProgram, hpath, hin, Surroundings.interrupted] at h ⊢
    split at h <;> cases h
    exact ⟨_, rfl⟩
  | none =>
    simp only [loadProgram, hpath, hin, Source.readProgram_ofBytes] at h
    cases h

/-! ### Reports -/

/-- What comes of an invocation when the read after `n` of `bytes` is interrupted, if it would have been
made. -/
def Stops (bytes : List UInt8) (n : Nat) (ts : List Traffic) (x : Except Crash Report) : Prop :=
  match writtenBefore n ts with
  | some written => ∃ r, x = .ok r ∧ r.Interrupted written (bytes.drop n)
  | none => Undisturbed x

theorem undisturbed_of_ok {r : Report} (h : r.exitCode ≠ .interrupted) : Undisturbed (.ok r) := by
  constructor
  · rintro _ ⟨⟩ hexit
    generalize r.exitCode = c at h hexit
    cases c <;> contradiction
  · rintro ⟨⟩

theorem undisturbed_of_crash {crash : Crash} (h : crash ≠ .fault .interrupted) :
    Undisturbed (.error crash) := by
  constructor
  · rintro _ ⟨⟩
  · exact fun he => h (Except.error.inj he)

theorem undisturbed_reportEnding (h : e.halt ≠ .faulted .interrupted) :
    Undisturbed (reportEnding o e events) := by
  simp only [reportEnding]
  split
  · exact undisturbed_of_ok (by simp)
  · exact undisturbed_of_crash (by simp)
  · contradiction
  · split
    · exact undisturbed_of_ok (by simp)
    · exact undisturbed_of_ok (by simp)
    · refine undisturbed_of_crash fun hc => ?_
      cases hc
      contradiction

theorem stops_nil {x : Except Crash Report} (h : Undisturbed x) : Stops bytes n [] x := by
  cases n <;> exact h

theorem stops_reportEnding {e' : Ending} {ts : List Traffic}
    (h : InterruptedAt bytes [] n ts e e') (he : e.halt ≠ .faulted .interrupted) :
    Stops bytes n ts (reportEnding o e' events) := by
  unfold InterruptedAt at h
  unfold Stops
  cases hw : writtenBefore n ts with
  | none =>
    rw [hw] at h
    exact undisturbed_reportEnding (h ▸ he)
  | some written =>
    rw [hw] at h
    obtain ⟨hh, hout, hin⟩ := h
    simp only [reportEnding, hh]
    exact ⟨_, rfl, rfl, hout, hin⟩

theorem stops_plainly : Stops bytes n (trafficOfReference text settings bytes patience)
    (interpretPlainly o settings text ⟨bytes, some n⟩ patience) := by
  match hp : pairBrackets (Symbol.ofText text) with
  | .error b =>
    have hrun : runReference text settings ⟨bytes, some n⟩ .streaming patience = .error b := by
      rw [runReference, Reference.run, hp]
      rfl
    simp only [trafficOfReference, hp, interpretPlainly, hrun]
    exact stops_nil (undisturbed_of_ok (by simp [reportBracket]))
  | .ok pairs =>
    obtain ⟨e, e', he, he', hstops⟩ := interrupts_reference hp settings bytes n patience
    simp only [interpretPlainly, he']
    refine stops_reportEnding hstops fun hf => ?_
    cases raised_of_runReference he hf

theorem stops_compiled (hd : o.dump = none) :
    Stops bytes n (trafficOfSource text settings bytes patience)
      (interpretCompiled o settings text ⟨bytes, some n⟩ patience) := by
  match hp : Program.compile text settings.linear with
  | .error b =>
    simp only [trafficOfSource, interpretCompiled, hp]
    exact stops_nil (undisturbed_of_ok (by simp [reportBracket]))
  | .ok p =>
    obtain ⟨e, e', he, he', hstops⟩ := interrupts_source hp bytes n patience
    obtain ⟨steps, -, hrun⟩ := interpretCompiled_of_ok hp hd he'
    rw [hrun]
    refine stops_reportEnding hstops fun hf => ?_
    cases raised_of_runSource he hf

theorem stops_traffic : Stops bytes n (o.traffic settings text bytes patience)
    (if o.naive then interpretPlainly o settings text ⟨bytes, some n⟩ patience
      else interpretCompiled o settings text ⟨bytes, some n⟩ patience) := by
  rw [Options.traffic]
  split_ifs with hn hd
  · exact stops_plainly
  · obtain ⟨layout, hlayout⟩ := Option.isSome_iff_exists.1 hd
    refine stops_nil ?_
    simp only [interpretCompiled, hlayout]
    split <;> exact undisturbed_of_ok (by simp [reportBracket])
  · exact stops_compiled (Option.not_isSome_iff_eq_none.1 hd)

/-! ### Events -/

theorem Undisturbed.reportEvents {x : Except Crash Report} (h : Undisturbed x) :
    Undisturbed (x >>= (·.reportEvents o)) := by
  match x with
  | .error crash => exact h
  | .ok r =>
    show Undisturbed (r.reportEvents o)
    rw [Report.reportEvents]
    split
    · constructor
      · rintro _ ⟨⟩
        exact h.caught r rfl
      · rintro ⟨⟩
    · exact undisturbed_of_crash (by simp)

theorem legible_compiled_of_interrupted {r : Report} (hl : o.logLevel ≠ .debug)
    (hlength : Text.Short text.length) (h : interpretCompiled o settings text input patience = .ok r)
    (hexit : r.exitCode.toNat = 130) : Journal.Legible r.events := by
  cases hp : Program.compile text settings.linear with
  | error b =>
    simp only [interpretCompiled, hp] at h
    cases h
    cases hexit
  | ok p =>
    cases hd : o.dump with
    | some layout =>
      simp only [interpretCompiled, hp, hd] at h
      cases h
      cases hexit
    | none =>
      obtain ⟨e, he⟩ : ∃ e, runSource text settings input .streaming patience = .ok e :=
        ⟨_, by rw [runSource, hp]; rfl⟩
      obtain ⟨steps, hsteps, hrun⟩ := interpretCompiled_of_ok hp hd he
      rw [hrun] at h
      have hh := by_contra fun hne => (undisturbed_reportEnding hne).caught r h hexit
      have hending : Journal.ofEnding e = [] := by simp only [Journal.ofEnding, hh]
      rw [hsteps hl, hending, List.append_nil, List.append_nil] at h
      rw [legible_reportEnding_iff h]
      exact (Journal.legible_ofCompilation hlength).append (Journal.legible_ofBlank _)

/-- At a higher level than that of debugging, an interrupt is the only event that is reported in addition
to those of the usual level. -/
theorem isReported_warning {ev : Event} {l : Level} (hl : l ≠ .debug)
    (hr : ev.isReported l = true) : ev.isReported .warning = true ∨ ev = .interrupted := by
  cases ev with
  | interrupted => exact .inr rfl
  | compiled | tapeCapped | tapeGrown | fellBack | finished =>
    cases l <;> contradiction
  | _ => exact .inl rfl

theorem legible_of_interrupted {r : Report} (hl : o.logLevel ≠ .debug)
    (hlength : Text.Short text.length)
    (h : (if o.naive then interpretPlainly o settings text input patience
      else interpretCompiled o settings text input patience) = .ok r)
    (hexit : r.exitCode.toNat = 130) : Journal.Legible r.events := by
  split_ifs at h
  · exact legible_plainly h
  · exact legible_compiled_of_interrupted hl hlength h hexit

/-- What comes of an invocation that is interrupted in place of the read after `n` of `bytes`, and that
has written `written` before. -/
inductive BrokenOff (s : Surroundings) (o : Options) (settings : Settings) (bytes : List UInt8)
    (n patience : Nat) (written : List UInt8) : Except Crash Report → Prop
  /-- While the program is read, nothing catches the interrupt. -/
  | reading (hn : n < o.programReads bytes) (hwritten : written = [])
      (hload : loadProgram (s.interrupted n) o =
        .error (.inl .interrupted) ⟨bytes.drop n, some 0⟩) :
      BrokenOff s o settings bytes n patience written (.error (.fault .interrupted))
  | running {r : Report} (hn : o.programReads bytes ≤ n)
      (hr : r.Interrupted written (bytes.drop n)) :
      BrokenOff s o settings bytes n patience written (.ok r)
  /-- An event of the run has a number that is too long to be written. -/
  | unwritable {r : Report} {ev : Event} (hn : o.programReads bytes ≤ n)
      (hrun : interpret (s.interrupted n) o settings patience = .ok r)
      (hr : r.Interrupted written (bytes.drop n)) (hev : ev ∈ r.events)
      (hreported : ev.isReported o.logLevel = true) (hw : ev.isWritable = false)
      (hlong : o.logLevel = .debug ∨
        ∃ text input, loadProgram s o = .ok text input ∧ ¬ Text.Short text.length) :
      BrokenOff s o settings bytes n patience written (.error (.numeral .tooLongToWrite))

theorem run_interrupted (hplan : plan s.environment s.words = .ok (.run o settings))
    (n patience : Nat) : run (s.interrupted n) patience =
      interpret (s.interrupted n) o settings patience >>= (·.reportEvents o) := by
  have hplan' : plan (s.interrupted n).environment (s.interrupted n).words =
      .ok (.run o settings) := hplan
  rw [run, hplan']
  rfl

/-- A report on an interrupt of the running program is made unless it cannot be written. -/
theorem BrokenOff.of_interrupted {r : Report} {input' : Input} {written : List UInt8}
    (hn : o.programReads bytes ≤ n) (hload : loadProgram s o = .ok text input)
    (hload' : loadProgram (s.interrupted n) o = .ok text input')
    (hrun : interpret (s.interrupted n) o settings patience = .ok r)
    (hr : r.Interrupted written (bytes.drop n)) :
    BrokenOff s o settings bytes n patience written (r.reportEvents o) := by
  rw [Report.reportEvents]
  split_ifs with hall
  · exact .running hn { hr with }
  · simp only [List.all_eq_true, not_forall] at hall
    obtain ⟨ev, hev, hwritable⟩ := hall
    obtain ⟨hmem, hreported⟩ := List.mem_filter.1 hev
    refine .unwritable hn hrun hr hmem hreported (eq_false_of_ne_true hwritable) ?_
    by_contra! hshort
    obtain ⟨hl, hlength⟩ := hshort
    have hlegible : Journal.Legible r.events := by
      rw [interpret, hload'] at hrun
      exact legible_of_interrupted hl (hlength text input hload) hrun hr.exitCode
    rcases isReported_warning hl hreported with hwarning | rfl
    · exact hwritable (hlegible ev hmem hwarning)
    · exact hwritable rfl

theorem brokenOff_or_undisturbed (hplan : plan s.environment s.words = .ok (.run o settings))
    (hin : s.stdin = .ofBytes bytes) (n patience : Nat) :
    match writtenBefore n (traffic s o settings patience) with
    | some written =>
      BrokenOff s o settings bytes n patience written (run (s.interrupted n) patience)
    | none => Undisturbed (run (s.interrupted n) patience) := by
  have hrest : s.stdin.rest = bytes := by rw [hin]; rfl
  rw [run_interrupted hplan, traffic, hrest]
  cases hload : loadProgram s o with
  | error f input =>
    obtain ⟨f', hload'⟩ := loadProgram_of_error (n := n) hin hload
    have hnone : writtenBefore n [] = none := by cases n <;> rfl
    simp only [hnone, interpret, hload']
    exact (undisturbed_of_ok (by simp)).reportEvents
  | ok text input =>
    obtain ⟨rfl, hload'⟩ := loadProgram_of_ok (n := n) hin hload
    simp only [writtenBefore_replicate]
    by_cases hn : n < o.programReads bytes
    · rw [if_pos hn] at hload' ⊢
      rw [interpret, hload']
      exact .reading hn rfl hload'
    · rw [if_neg hn] at hload' ⊢
      have hdrop : (bytes.drop (o.programReads bytes)).drop (n - o.programReads bytes) =
          bytes.drop n := by
        rw [List.drop_drop, Nat.add_sub_cancel' (Nat.not_lt.1 hn)]
      have hstops : Stops (bytes.drop (o.programReads bytes)) (n - o.programReads bytes)
          (o.traffic settings text (bytes.drop (o.programReads bytes)) patience)
          (interpret (s.interrupted n) o settings patience) := by
        rw [interpret, hload']
        exact stops_traffic
      rw [Stops, hdrop] at hstops
      simp only [Input.ofBytes]
      split at hstops
      · obtain ⟨r, hr, hinterrupted⟩ := hstops
        rw [hr]
        exact .of_interrupted (Nat.not_lt.1 hn) hload hload' hr hinterrupted
      · exact hstops.reportEvents

/-- An interrupt in place of a read of the running program ends the invocation in order: its exit code is
130, its output is what the program has written before, and no more is taken from standard input than
the reads before. In place of a read of the program itself the interrupt is not caught. An invocation that
would not make this read goes on undisturbed. -/
theorem interrupted_at_read (hplan : plan s.environment s.words = .ok (.run o settings))
    (hin : s.stdin = .ofBytes bytes) (n patience : Nat) :
    (n < (traffic s o settings patience).count .read → ∃ written,
      writtenBefore n (traffic s o settings patience) = some written ∧
        BrokenOff s o settings bytes n patience written (run (s.interrupted n) patience)) ∧
      ((traffic s o settings patience).count .read ≤ n →
        Undisturbed (run (s.interrupted n) patience)) := by
  have h := brokenOff_or_undisturbed hplan hin n patience
  split at h
  · rename_i written hw
    refine ⟨fun _ => ⟨written, hw, h⟩, fun hn => ?_⟩
    cases (writtenBefore_eq_none_iff.2 hn).symm.trans hw
  · rename_i hw
    refine ⟨fun hn => ?_, fun _ => h⟩
    exact absurd (writtenBefore_eq_none_iff.1 hw) (Nat.not_le.2 hn)

/-- An invocation without words, in an empty environment. -/
def bare (bytes : List UInt8) : Surroundings where
  words := []
  environment := []
  openFile _ := .error .notFound
  stdin := .ofBytes bytes

def bareOptions : Options := defaultOptions {} "1024"

theorem plan_bare (bytes : List UInt8) :
    plan (bare bytes).environment (bare bytes).words = .ok (.run bareOptions {}) := by
  show plan [] [] = _
  decide +kernel

theorem loadProgram_bare (bytes : List UInt8) :
    loadProgram (bare bytes) bareOptions =
      .ok (Source.splitBytes bytes).1 (.ofBytes (Source.splitBytes bytes).2) := by
  have hpath : bareOptions.path? = none := rfl
  have hin : (bare bytes).stdin = .ofBytes bytes := rfl
  simp only [loadProgram, hpath, hin, Source.readProgram_ofBytes]

/-- The program `,.,` is followed by `ab`. The interrupt comes in place of its second read, or in place
of the third read of the program itself. -/
theorem interrupted_at_second_read :
    plan (bare [44, 46, 44, 33, 97, 98]).environment (bare [44, 46, 44, 33, 97, 98]).words =
        .ok (.run bareOptions {}) ∧
      (bare [44, 46, 44, 33, 97, 98]).stdin = .ofBytes [44, 46, 44, 33, 97, 98] ∧
      (∃ r, run ((bare [44, 46, 44, 33, 97, 98]).interrupted 5) 9 = .ok r ∧
        r.Interrupted [97] [98]) ∧
      run ((bare [44, 46, 44, 33, 97, 98]).interrupted 2) 9 = .error (.fault .interrupted) := by
  have hplan := plan_bare [44, 46, 44, 33, 97, 98]
  have htraffic : traffic (bare [44, 46, 44, 33, 97, 98]) bareOptions {} 9 =
      [.read, .read, .read, .read, .read, .wrote 97, .read] := by decide +kernel
  have hrunning := interrupted_at_read hplan rfl 5 9
  have hreading := interrupted_at_read hplan rfl 2 9
  rw [htraffic] at hrunning hreading
  obtain ⟨_, ⟨⟩, hrunning⟩ := hrunning.1 (by decide)
  obtain ⟨_, ⟨⟩, hreading⟩ := hreading.1 (by decide)
  refine ⟨hplan, rfl, ?_, ?_⟩
  · generalize run _ 9 = x at hrunning
    cases hrunning with
    | reading hn => exact absurd hn (by decide +kernel)
    | running _ hr => exact ⟨_, rfl, hr⟩
    | unwritable _ _ _ _ _ _ hlong =>
      rcases hlong with hl | ⟨text, input, hload, hlength⟩
      · cases hl
      · cases (loadProgram_bare _).symm.trans hload
        exact absurd (by decide +kernel) hlength
  · generalize run _ 9 = x at hreading
    cases hreading with
    | reading => rfl
    | running hn => exact absurd hn (by decide +kernel)
    | unwritable hn => exact absurd hn (by decide +kernel)

/-- Interrupted in place of the first read of the program `+`, an invocation has no exit code. -/
theorem escapes_when_program_is_interrupted :
    plan (bare [43]).environment (bare [43]).words = .ok (.run bareOptions {}) ∧
      writtenBefore 0 (traffic (bare [43]) bareOptions {} 9) = some [] ∧
      run ((bare [43]).interrupted 0) 9 = .error (.fault .interrupted) ∧
      ¬ ∃ r, run ((bare [43]).interrupted 0) 9 = .ok r ∧ r.exitCode.toNat = 130 := by
  obtain ⟨-, hload⟩ := loadProgram_of_ok (n := 0) rfl (loadProgram_bare [43])
  rw [if_pos (by decide +kernel)] at hload
  have hrun : run ((bare [43]).interrupted 0) 9 = .error (.fault .interrupted) := by
    rw [run_interrupted (plan_bare [43]), interpret, hload]
    rfl
  refine ⟨plan_bare [43], by decide +kernel, hrun, ?_⟩
  rintro ⟨r, hr, -⟩
  cases hrun.symm.trans hr

end CommandLine

end TapeFold
