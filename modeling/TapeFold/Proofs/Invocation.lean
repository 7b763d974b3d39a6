import TapeFold.Proofs.ClosedForm
import TapeFold.Proofs.Sizes
import TapeFold.Proofs.Source
import TapeFold.Proofs.Reports

/-!
# Invocations

An invocation that lists no code answers as the program runs: its exit code says how the run ends, its
standard output is what the run writes to a buffer, and the standard input it leaves unread is the input
that the run does. It is broken off just if it comes to a number that is too long to be written
(`run_answers`), such as a memory size of the environment that is not even used, or the steps of a run
that has exceeded its limit. The program may stand in a file, or in front of its input with a `!` between
them.
-/

namespace TapeFold.CommandLine

open Machine

/-- What runs the program that is asked for. -/
def Choice.interpreter (c : Choice) (text : String) (settings : Settings) (input : Input)
    (output : Output) (patience : Nat) : Except BracketError Ending :=
  if c.naive then runReference text settings input output patience
  else runSource text settings input output patience

/-- Where the text of the program and its input come from. Without a file, standard input is parted at
its first `!`; with one, all of it is input. -/
inductive Given (s : Surroundings) : Option String → String → List UInt8 → Prop
  | stdin {bytes : List UInt8} (hin : s.stdin = .ofBytes bytes) :
      Given s none (Source.splitBytes bytes).1 (Source.splitBytes bytes).2
  | file {path : String} {program input : List UInt8} (hpath : path ≠ "")
      (hopen : s.openFile path = .ok program) (hin : s.stdin = .ofBytes input) :
      Given s (some path) (Source.latin1 program) input

/-- What an invocation asks for and what it is given, in a valid environment. -/
structure Invokes (s : Surroundings) (c : Choice) (settings : Settings) (text : String)
    (input : List UInt8) : Prop where
  words : Asks s.words c
  environment : ∃ defaults, Settings.ofEnvironment s.environment = .ok defaults
  settled : c.Settles s.environment settings
  given : Given s c.file text input

/-- The invocation `s'` is `s` without its file. The program stands on standard input instead, with a
`!` after it. -/
structure Inlines (s : Surroundings) (c : Choice) (input : List UInt8) (s' : Surroundings) : Prop where
  words : Asks s'.words { c with file := none }
  environment : s'.environment = s.environment
  stdin : ∃ path program, c.file = some path ∧ s.openFile path = .ok program ∧
    s'.stdin = .ofBytes (program.takeWhile (· != Source.sentinelByte) ++ Source.sentinelByte :: input)

/-- What comes of an invocation answers what comes of a run on `input` that buffers its output. -/
inductive Answers (input : List UInt8) : Except BracketError Ending → Except Crash Report → Prop
  | notCompiled {b : BracketError} {r : Report} (hexit : r.exitCode.toNat = 1) (hout : r.stdout = [])
      (hin : r.stdin = .ofBytes input) : Answers input (.error b) (.ok r)
  | finished {e : Ending} {r : Report} (hh : e.halt = .finished) (hexit : r.exitCode.toNat = 0)
      (hout : r.stdout = e.machine.output.buffer.toList) (hin : r.stdin = e.machine.input) :
      Answers input (.ok e) (.ok r)
  | aborted {e : Ending} {f : Fault} {r : Report} (hh : e.halt = .faulted f) (hf : f.Raised)
      (hexit : r.exitCode.toNat = 3) (hout : r.stdout = e.machine.output.buffer.toList)
      (hin : r.stdin = e.machine.input) : Answers input (.ok e) (.ok r)
  | unfinished {e : Ending} (hh : e.halt = .unfinished) : Answers input (.ok e) (.error .unfinished)

/-- What is reported of the compilation of a program and of its run. -/
def journal (text : String) (linear : Bool) (outcome : Except BracketError Ending) : List Event :=
  Journal.ofCompilation text linear ++
    match outcome with
    | .ok e => Journal.ofEnding e
    | .error _ => []

/-- An invocation comes to a number that is too long to be written. It may be the memory size of the
environment, which is written as the default of an option, or be reported of a compiled program and of its
run. -/
inductive Unwritable (s : Surroundings) (c : Choice) (settings : Settings) (text : String)
    (outcome : Except BracketError Ending) : Prop
  | default {defaults : Settings} (henv : Settings.ofEnvironment s.environment = .ok defaults)
      (hlong : ¬ Text.Short defaults.memorySize) : Unwritable s c settings text outcome
  | report (hc : c.naive = false) (hended : ∀ e, outcome = .ok e → e.halt ≠ .unfinished)
      (hl : ¬ Journal.Legible (journal text settings.linear outcome)) :
      Unwritable s c settings text outcome

/-- The numbers of a program in `text` and of its run are short. -/
def Reportable (text : String) (outcome : Except BracketError Ending) : Prop :=
  Text.Short text.length ∧ ∀ e, outcome = .ok e →
    Text.Short e.machine.steps ∧ Text.Short e.machine.tape.pointer

variable {s s' : Surroundings} {c : Choice} {settings : Settings} {text : String}
  {input : List UInt8} {o : Options} {e e' : Ending} {r : Report} {events : List Event}
  {outcome : Except BracketError Ending} {patience : Nat}

/-! ### Programs -/

theorem Given.loadProgram (h : Given s c.file text input) (ho : o.file = c.file) :
    loadProgram s o = .ok text (.ofBytes input) := by
  rw [CommandLine.loadProgram, Options.path?, ho]
  generalize c.file = file at h
  cases h with
  | stdin hin => simp [hin, Source.readProgram_ofBytes]
  | file hpath hopen hin => simp [hpath, hopen, hin, Option.filter]

section
variable {text' : String} {stdin : Input} (h : Symbol.ofText text = Symbol.ofText text')
include h

theorem interpretPlainly_eq_of_ofText :
    interpretPlainly o settings text stdin patience =
      interpretPlainly o settings text' stdin patience := by
  simp only [interpretPlainly, runReference, Reference.run, h]

theorem interpretCompiled_eq_of_ofText :
    interpretCompiled o settings text stdin patience =
      interpretCompiled o settings text' stdin patience := by
  simp only [interpretCompiled, Journal.ofCompilation, Program.compile, h]

end

/-! ### Reports -/

theorem Answers.report {r' : Report} (h : Answers input outcome (.ok r))
    (hexit : r'.exitCode = r.exitCode) (hout : r'.stdout = r.stdout) (hin : r'.stdin = r.stdin) :
    Answers input outcome (.ok r') := by
  cases h with
  | notCompiled he ho hi => exact .notCompiled (hexit ▸ he) (hout ▸ ho) (hin ▸ hi)
  | finished hh he ho hi => exact .finished hh (hexit ▸ he) (hout ▸ ho) (hin ▸ hi)
  | aborted hh hf he ho hi => exact .aborted hh hf (hexit ▸ he) (hout ▸ ho) (hin ▸ hi)

/-- The report on the end of a streamed run answers the same run with a buffer. -/
theorem answers_reportEnding {values : Except BracketError (List Int)}
    (h : StreamsAlike values (.ok e) (.ok e')) (hf : ∀ f, e'.halt = .faulted f → f.Raised) :
    Answers input (.ok e') (reportEnding o e events) := by
  obtain ⟨vs, e₁, e₂, -, ⟨⟩, ⟨⟩, hhalt, hbuffer, hstream⟩ := h
  have hout : e.machine.output.bytes.toList = e'.machine.output.buffer.toList := by
    rw [hbuffer, hstream]
    rfl
  have hin : e.machine.input = e'.machine.input := by rw [hbuffer]
  match hh : e.halt with
  | .finished =>
    simp only [reportEnding, hh]
    exact .finished (hhalt.trans hh) rfl hout hin
  | .unfinished =>
    simp only [reportEnding, hh]
    exact .unfinished (hhalt.trans hh)
  | .faulted f =>
    have hraised := hf f (hhalt.trans hh)
    cases hraised with
    | underflow i =>
      simp only [reportEnding, hh]
      exact .aborted (hhalt.trans hh) (.underflow i) rfl hout hin
    | stepLimit limit =>
      simp only [reportEnding, hh]
      exact .aborted (hhalt.trans hh) (.stepLimit limit) rfl hout hin

/-- The end of a run adds no numbers to what is reported. -/
theorem legible_reportEnding_iff (hr : reportEnding o e events = .ok r) :
    Journal.Legible r.events ↔ Journal.Legible events := by
  have hmore (ev : Event) (hd : ev.isWritable = true) :
      Journal.Legible (events ++ [ev]) ↔ Journal.Legible events :=
    Journal.legible_append_iff.trans (and_iff_left fun _ he _ => List.mem_singleton.1 he ▸ hd)
  simp only [reportEnding] at hr
  split at hr
  · cases hr
    exact Iff.rfl
  · cases hr
  · cases hr
    exact hmore _ rfl
  · split at hr <;> cases hr
    · exact hmore _ rfl
    · exact hmore _ rfl

/-- At the usual level, what is legible is just what can be reported. -/
theorem all_isWritable_iff (ho : o.logLevel = .warning) :
    (r.events.filter (·.isReported o.logLevel)).all Event.isWritable = true ↔
      Journal.Legible r.events := by
  simp only [List.all_eq_true, List.mem_filter, and_imp, ho, Journal.Legible]

/-- A report is kept if its numbers can be written. -/
theorem Answers.reportEvents {x : Except Crash Report} (h : Answers input outcome x)
    (ho : o.logLevel = .warning) (hl : ∀ r, x = .ok r → Journal.Legible r.events) :
    Answers input outcome (x >>= (·.reportEvents o)) := by
  cases x with
  | error crash => exact h
  | ok r =>
    show Answers input outcome (r.reportEvents o)
    rw [Report.reportEvents, if_pos ((all_isWritable_iff ho).2 (hl r rfl))]
    exact h.report rfl rfl rfl

theorem reportEvents_of_not_legible (ho : o.logLevel = .warning) (hl : ¬ Journal.Legible r.events) :
    r.reportEvents o = .error (.numeral .tooLongToWrite) := by
  rw [Report.reportEvents, if_neg (mt (all_isWritable_iff ho).1 hl)]

/-- There is a report just if the run has come to an end. -/
theorem Answers.exists_report_iff {x : Except Crash Report} (h : Answers input outcome x) :
    (∃ r, x = .ok r) ↔ ∀ e, outcome = .ok e → e.halt ≠ .unfinished := by
  cases h with
  | @notCompiled b r =>
    refine iff_of_true ⟨r, rfl⟩ ?_
    rintro e ⟨⟩
  | @finished e r hh =>
    refine iff_of_true ⟨r, rfl⟩ ?_
    rintro _ ⟨⟩
    rw [hh]
    decide
  | @aborted e f r hh =>
    refine iff_of_true ⟨r, rfl⟩ ?_
    rintro _ ⟨⟩
    rw [hh]
    exact Halt.noConfusion
  | unfinished hh =>
    refine iff_of_false ?_ fun hended => hended _ rfl hh
    rintro ⟨r, ⟨⟩⟩

/-! ### Runs -/

theorem answers_plainly : Answers input
    (runReference text settings (.ofBytes input) .buffered patience)
    (interpretPlainly o settings text (.ofBytes input) patience) := by
  match hp : pairBrackets (Symbol.ofText text) with
  | .error b =>
    have hrun (output : Output) :
        runReference text settings (.ofBytes input) output patience = .error b := by
      rw [runReference, Reference.run, hp]
      rfl
    rw [interpretPlainly, hrun, hrun]
    exact .notCompiled rfl rfl rfl
  | .ok pairs =>
    have hstreams := streamsAlike_reference hp settings (.ofBytes input) patience
    obtain ⟨-, e, e', -, he, he', -⟩ := id hstreams
    rw [interpretPlainly, he, he']
    rw [he, he'] at hstreams
    exact answers_reportEnding hstreams fun f hf => raised_of_runReference he' hf

theorem legible_plainly {stdin : Input} (h : interpretPlainly o settings text stdin patience = .ok r) :
    Journal.Legible r.events := by
  rw [interpretPlainly] at h
  split at h
  · cases h
    exact fun ev he _ => List.mem_singleton.1 he ▸ rfl
  · rw [legible_reportEnding_iff h]
    exact (Journal.legible_ofBlank _).append (Journal.legible_ofReference _ _)

/-- Only debug events come from the steps of a run. -/
theorem interpretCompiled_of_ok {p : Program} (hp : Program.compile text settings.linear = .ok p)
    (hd : o.dump = none) {stdin : Input}
    (he : runSource text settings stdin .streaming patience = .ok e) :
    ∃ steps, (o.logLevel ≠ .debug → steps = []) ∧
      interpretCompiled o settings text stdin patience =
        reportEnding o e (Journal.ofCompilation text settings.linear ++
          Journal.ofBlank settings.memorySize ++ steps ++ Journal.ofEnding e) := by
  rw [runSource, hp] at he
  obtain rfl := Except.ok.inj he
  simp only [interpretCompiled, hp, hd]
  exact ⟨_, fun hl => if_neg hl, rfl⟩

theorem answers_compiled (hd : o.dump = none) : Answers input
    (runSource text settings (.ofBytes input) .buffered patience)
    (interpretCompiled o settings text (.ofBytes input) patience) := by
  match hp : Program.compile text settings.linear with
  | .error b =>
    have hrun : runSource text settings (.ofBytes input) .buffered patience = .error b := by
      rw [runSource, hp]
      rfl
    simp only [interpretCompiled, hp, hrun]
    exact .notCompiled rfl rfl rfl
  | .ok p =>
    have hstreams := streamsAlike_source hp (.ofBytes input) patience
    obtain ⟨-, e, e', -, he, he', -⟩ := id hstreams
    obtain ⟨steps, -, hrun⟩ := interpretCompiled_of_ok hp hd he
    rw [hrun, he']
    rw [he, he'] at hstreams
    exact answers_reportEnding hstreams fun f hf => raised_of_runSource he' hf

/-- What is reported of a compiled program at the usual level is legible just if its journal is. -/
theorem legible_compiled_iff (hd : o.dump = none) (hl : o.logLevel = .warning)
    (h : interpretCompiled o settings text (.ofBytes input) patience = .ok r) :
    Journal.Legible r.events ↔ Journal.Legible (journal text settings.linear
      (runSource text settings (.ofBytes input) .buffered patience)) := by
  cases hp : Program.compile text settings.linear with
  | error b =>
    have hrun : runSource text settings (.ofBytes input) .buffered patience = .error b := by
      rw [runSource, hp]
      rfl
    simp only [interpretCompiled, hp] at h
    cases h
    rw [hrun, journal, List.append_nil]
    refine Journal.legible_append_iff.trans (and_iff_left ?_)
    exact fun ev he _ => List.mem_singleton.1 he ▸ rfl
  | ok p =>
    obtain ⟨vs, e, e', -, he, he', hhalt, hbuffer, -⟩ :=
      streamsAlike_source hp (.ofBytes input) patience
    obtain ⟨steps, hsteps, hrun⟩ := interpretCompiled_of_ok hp hd he
    obtain rfl := hsteps (by rw [hl]; decide)
    have hending : Journal.ofEnding e = Journal.ofEnding e' := by
      simp only [Journal.ofEnding, hhalt, hbuffer]
    rw [hrun] at h
    rw [legible_reportEnding_iff h, he', journal, hending, List.append_nil]
    simp only [Journal.legible_append_iff, Journal.legible_ofBlank, and_true]

/-- Short numbers can be written. -/
theorem Reportable.legible {stdin : Input} {output : Output}
    (h : Reportable text (runSource text settings stdin output patience)) :
    Journal.Legible (journal text settings.linear
      (runSource text settings stdin output patience)) := by
  obtain ⟨hlength, hrun⟩ := h
  have hcompilation : Journal.Legible (Journal.ofCompilation text settings.linear) :=
    Journal.legible_ofCompilation hlength
  cases he : runSource text settings stdin output patience with
  | error b =>
    rw [journal, List.append_nil]
    exact hcompilation
  | ok e =>
    obtain ⟨hsteps, hpointer⟩ := hrun e he
    have hcursor := cursor_of_runSource he
    exact hcompilation.append
      (Journal.legible_ofEnding (hlength.mono (by omega)) hpointer hsteps)

/-! ### Invocations -/

section
variable {defaults : Settings} (henv : Settings.ofEnvironment s.environment = .ok defaults)
include henv

/-- An invocation runs the program that it is given under the options of its choice. -/
theorem Invokes.run_eq (h : Invokes s c settings text input)
    (hsize : Text.Short defaults.memorySize) (patience : Nat) :
    let o := c.options defaults settings
    CommandLine.run s patience =
      (if c.naive then interpretPlainly o settings text (.ofBytes input) patience
        else interpretCompiled o settings text (.ofBytes input) patience) >>= (·.reportEvents o) := by
  have hload : loadProgram s (c.options defaults settings) = _ := h.given.loadProgram rfl
  rw [CommandLine.run, plan_eq h.words henv hsize h.settled]
  show (interpret s _ settings patience >>= _) = _
  rw [interpret, hload]
  rfl

theorem run_of_long (hlong : ¬ Text.Short defaults.memorySize) (patience : Nat) :
    CommandLine.run s patience = .error (.numeral .tooLongToWrite) := by
  rw [CommandLine.run, plan_of_long henv hlong]
  rfl

/-- An invocation whose numbers are short comes to none that is too long. -/
theorem not_unwritable {stdin : Input} {output : Output} (hsize : Text.Short defaults.memorySize)
    (hw : c.naive = false →
      Reportable text (c.interpreter text settings stdin output patience)) :
    ¬ Unwritable s c settings text (c.interpreter text settings stdin output patience) := by
  rintro (⟨henv', hlong⟩ | ⟨hc, -, hl⟩)
  · obtain rfl := Except.ok.inj (henv.symm.trans henv')
    exact hlong hsize
  · have hw := hw hc
    simp only [Choice.interpreter, hc, Bool.false_eq_true, if_false] at hw hl
    exact hl hw.legible

end

/-- An invocation answers unless it comes to a number that is too long to be written. -/
theorem Invokes.answers (h : Invokes s c settings text input)
    (hw : ¬ Unwritable s c settings text
      (c.interpreter text settings (.ofBytes input) .buffered patience)) :
    Answers input (c.interpreter text settings (.ofBytes input) .buffered patience)
      (CommandLine.run s patience) := by
  obtain ⟨defaults, henv⟩ := h.environment
  have hsize : Text.Short defaults.memorySize := by_contra fun hlong => hw (.default henv hlong)
  have hdump : (c.options defaults settings).dump = none := rfl
  have hlevel : (c.options defaults settings).logLevel = .warning := rfl
  rw [h.run_eq henv hsize]
  rw [Choice.interpreter] at hw ⊢
  cases hn : c.naive with
  | true =>
    rw [if_pos rfl, if_pos rfl]
    exact answers_plainly.reportEvents hlevel fun r hr => legible_plainly hr
  | false =>
    have hanswers : Answers input (runSource text settings (.ofBytes input) .buffered patience)
        (interpretCompiled (c.options defaults settings) settings text (.ofBytes input) patience) :=
      answers_compiled hdump
    rw [if_neg (by decide), if_neg (by decide)]
    refine hanswers.reportEvents hlevel fun r hr => ?_
    rw [legible_compiled_iff hdump hlevel hr]
    rw [hn, if_neg (by decide)] at hw
    exact by_contra fun hl => hw (.report hn (hanswers.exists_report_iff.1 ⟨r, hr⟩) hl)

/-- It is broken off at such a number. -/
theorem Invokes.breaks_off (h : Invokes s c settings text input)
    (hw : Unwritable s c settings text
      (c.interpreter text settings (.ofBytes input) .buffered patience)) :
    CommandLine.run s patience = .error (.numeral .tooLongToWrite) := by
  obtain ⟨defaults, henv⟩ := h.environment
  by_cases hsize : Text.Short defaults.memorySize
  · rcases hw with ⟨henv', hlong⟩ | ⟨hc, hended, hl⟩
    · exact run_of_long henv' hlong patience
    · have hdump : (c.options defaults settings).dump = none := rfl
      have hlevel : (c.options defaults settings).logLevel = .warning := rfl
      simp only [Choice.interpreter, hc, Bool.false_eq_true, if_false] at hended hl
      obtain ⟨r, hr⟩ := (answers_compiled hdump).exists_report_iff.2 hended
      rw [← legible_compiled_iff hdump hlevel hr] at hl
      rw [h.run_eq henv hsize, hc, if_neg (by decide), hr]
      exact reportEvents_of_not_legible hlevel hl
  · exact run_of_long henv hsize patience

/-- It is so after more steps than can be written, where a run exceeds its limit. -/
theorem Invokes.breaks_off_of_stepLimit {limit : Int} (h : Invokes s c settings text input)
    (hc : c.naive = false)
    (he : runSource text settings (.ofBytes input) .buffered patience = .ok e)
    (hh : e.halt = .faulted (.stepLimit limit)) (hs : ¬ Text.Short e.machine.steps) :
    CommandLine.run s patience = .error (.numeral .tooLongToWrite) := by
  have hlegible : ¬ Journal.Legible (journal text settings.linear (.ok e)) := by
    rw [journal, Journal.legible_append_iff]
    exact fun hl => Journal.not_legible_ofEnding hh hs hl.2
  have hended : ∀ e', (.ok e : Except BracketError Ending) = .ok e' → e'.halt ≠ .unfinished := by
    rintro _ ⟨⟩
    rw [hh]
    exact Halt.noConfusion
  refine h.breaks_off ?_
  rw [Choice.interpreter, hc, if_neg (by decide), he]
  exact .report hc hended hlegible

/-- With its program on standard input, an invocation is given the same symbols and the same input. -/
theorem Invokes.inline (h : Invokes s c settings text input) (hs : Inlines s c input s') :
    ∃ text', Symbol.ofText text' = Symbol.ofText text ∧
      Invokes s' { c with file := none } settings text' input := by
  obtain ⟨path, program, hfile, hopen, hin⟩ := hs.stdin
  have hgiven := h.given
  rw [hfile] at hgiven
  cases hgiven with
  | @file _ program' _ hpath hopen' hin' =>
    obtain rfl : program = program' := Except.ok.inj (hopen.symm.trans hopen')
    have hkeep : ∀ b ∈ program.takeWhile (· != Source.sentinelByte), b ≠ Source.sentinelByte :=
      fun b hb => bne_iff_ne.1 (List.mem_takeWhile_imp (p := (· != Source.sentinelByte)) hb)
    have hsplit := Source.splitBytes_append hkeep input
    have hgiven' := Given.stdin hin
    rw [hsplit] at hgiven'
    refine ⟨_, Symbol.ofText_latin1_takeWhile program, hs.words, ?_, ?_, hgiven'⟩
    · rw [hs.environment]
      exact h.environment
    · rw [hs.environment]
      exact { h.settled with }

theorem Invokes.run_inline (h : Invokes s c settings text input) (hs : Inlines s c input s')
    (patience : Nat) : CommandLine.run s' patience = CommandLine.run s patience := by
  obtain ⟨defaults, henv⟩ := h.environment
  obtain ⟨text', htext, h'⟩ := h.inline hs
  have henv' : Settings.ofEnvironment s'.environment = .ok defaults := by rw [hs.environment, henv]
  by_cases hsize : Text.Short defaults.memorySize
  · rw [h.run_eq henv hsize, h'.run_eq henv' hsize, interpretPlainly_eq_of_ofText htext,
      interpretCompiled_eq_of_ofText htext]
    rfl
  · rw [run_of_long henv hsize, run_of_long henv' hsize]

/-- An invocation that lists no code answers as the run of its program does, under the settings that its
words and its environment come to, unless it comes to a number that is too long to be written. Then it is
broken off. The program may as well stand on standard input. -/
theorem run_answers (hi : Invokes s c settings text input) (patience : Nat) :
    let outcome := c.interpreter text settings (.ofBytes input) .buffered patience
    (¬ Unwritable s c settings text outcome → Answers input outcome (CommandLine.run s patience)) ∧
    (Unwritable s c settings text outcome →
      CommandLine.run s patience = .error (.numeral .tooLongToWrite)) ∧
    ∀ s', Inlines s c input s' → CommandLine.run s' patience = CommandLine.run s patience :=
  ⟨hi.answers, hi.breaks_off, fun _ hs => hi.run_inline hs patience⟩

/-- A program in a file echoes a byte and then leaves the tape. It has a comment after a `!`. -/
def echoOnce : Surroundings where
  words := ["-m", "64", "--eof-val", "-5", "echo.bf"]
  environment := [("BFFOLD_LINEAR", "off"), ("BFFOLD_MAX_STEPS", "50")]
  openFile path := if path = "echo.bf" then .ok [44, 46, 60, 43, 33, 46] else .error .notFound
  stdin := .ofBytes [7, 8]

/-- The same program on standard input, in front of its input. -/
def echoInline : Surroundings :=
  { echoOnce with
    words := ["-m64", "--eof-value=-5"]
    stdin := .ofBytes [44, 46, 60, 43, 33, 7, 8] }

def echoChoice : Choice where
  memorySize := some "64"
  eofValue := some "-5"
  file := some "echo.bf"

def echoSettings : Settings where
  memorySize := 64
  eofValue := -5
  linear := false
  maxSteps := some 50

theorem environment_echoOnce : Settings.ofEnvironment echoOnce.environment =
    .ok { linear := false, maxSteps := some 50 } := by
  decide +kernel

theorem invokes_echoOnce : Invokes echoOnce echoChoice echoSettings
    (Source.latin1 [44, 46, 60, 43, 33, 46]) [7, 8] := by
  have hsize : Collects ["-m", "64"] { memorySize := some "64" } :=
    .memorySize .nothing (.apart (.full (by decide)) (by decide +kernel))
  have hname : Flag.eofValue.Named "--eof-val" :=
    .short rfl (by decide) (by decide +kernel : _ = [("--eof-value", _)])
  have heof : Collects ["-m", "64", "--eof-val", "-5"]
      { memorySize := some "64", eofValue := some "-5" } :=
    .eofValue (n := -5) hsize (.apart hname (by decide +kernel)) (by decide +kernel)
  have hsettles : echoChoice.Settles echoOnce.environment echoSettings := {
    memorySize := .read (by decide +kernel)
    eofValue := .read (by decide +kernel)
    maxSteps := .read (by decide +kernel)
    linear := ⟨false, .read (by decide +kernel), rfl⟩
    positive := by
      rintro _ ⟨⟩
      decide }
  exact ⟨.plain (.file heof rfl (by decide +kernel)), ⟨_, environment_echoOnce⟩, hsettles,
    .file (by decide) rfl rfl⟩

theorem inlines_echoInline : Inlines echoOnce echoChoice [7, 8] echoInline := by
  have hsize : Collects ["-m64"] { memorySize := some "64" } :=
    .memorySize .nothing (.glued rfl (rfl : "64".toList = ['6', '4']) (by decide))
  have hname : Flag.eofValue.Named "--eof-value" := .full (by decide)
  have heof : Collects ["-m64", "--eof-value=-5"] { echoChoice with file := none } :=
    .eofValue (n := -5) hsize (.joined hname) (by decide +kernel)
  exact ⟨.plain heof, rfl, "echo.bf", [44, 46, 60, 43, 33, 46], rfl, rfl, rfl⟩

/-- The echo is written, the underflow ends the invocation, and a byte is left unread. -/
theorem run_answers_echo : ∃ r, CommandLine.run echoOnce 20 = .ok r ∧ r.exitCode.toNat = 3 ∧
    r.stdout = [7] ∧ r.stdin = .ofBytes [8] ∧ CommandLine.run echoInline 20 = .ok r := by
  have hrun : (runSource (Source.latin1 [44, 46, 60, 43, 33, 46]) echoSettings (.ofBytes [7, 8])
        .buffered 20).map
      (fun e => (e.halt, e.machine.output.buffer.toList, e.machine.input, e.machine.steps,
        e.machine.tape.pointer)) =
      .ok (.faulted (.underflow (-1)), [7], .ofBytes [8], 3, 0) := by
    decide +kernel
  have hreportable : Reportable (Source.latin1 [44, 46, 60, 43, 33, 46])
      (runSource (Source.latin1 [44, 46, 60, 43, 33, 46]) echoSettings (.ofBytes [7, 8])
        .buffered 20) := by
    refine ⟨by decide +kernel, fun e he => ?_⟩
    rw [he] at hrun
    simp only [Except.map, Except.ok.injEq, Prod.mk.injEq] at hrun
    obtain ⟨-, -, -, hsteps, hpointer⟩ := hrun
    rw [hsteps, hpointer]
    exact ⟨by decide +kernel, by decide +kernel⟩
  obtain ⟨hanswer, -, hinline⟩ := run_answers invokes_echoOnce 20
  rw [hinline echoInline inlines_echoInline]
  have hanswer := hanswer (not_unwritable environment_echoOnce (by decide +kernel) fun _ => hreportable)
  have hplain : echoChoice.naive = false := rfl
  simp only [Choice.interpreter, hplain, Bool.false_eq_true, if_false] at hanswer
  generalize runSource _ _ _ _ _ = outcome at hrun hanswer
  match outcome, hrun with
  | .ok e, hrun =>
    simp only [Except.map, Except.ok.injEq, Prod.mk.injEq] at hrun
    obtain ⟨hh, hout, hin, -⟩ := hrun
    generalize CommandLine.run echoOnce 20 = x at hanswer
    cases hanswer with
    | finished hh' => cases hh.symm.trans hh'
    | @aborted _ _ r _ _ hexit hout' hin' =>
      exact ⟨r, rfl, hexit, hout'.trans hout, hin'.trans hin, rfl⟩
    | unfinished hh' => cases hh.symm.trans hh'

/-! ### Numbers that are too long -/

/-- The environment names a memory size that is too long to be written, and an option names another. -/
def overridden : Surroundings where
  words := ["-m", "64"]
  environment := [(Settings.memorySizeVariable, Text.largest.repr ++ "k")]
  openFile _ := .error .notFound
  stdin := .ofBytes [44, 46, 33, 97]

/-- A countdown from below zero under the largest limit that can be written. -/
def persistent : Surroundings where
  words := []
  environment := [(Settings.maxStepsVariable, Text.largest.repr)]
  openFile _ := .error .notFound
  stdin := .ofBytes [45, 91, 45, 93]

theorem settles_overridden : ({} : Choice).Settles overridden.environment
    { memorySize := (Text.largest * 1024 : Nat) } :=
  Choice.settles_memorySize (by simp)
    (Settings.readMemorySize_repr_append Text.largest_pos Text.short_largest (by decide))

theorem settles_persistent : ({} : Choice).Settles persistent.environment
    { maxSteps := some Text.largest } :=
  Choice.settles_maxSteps Nat.repr_ne_empty (Text.readInteger_repr Text.short_largest)
    (Int.natCast_pos.2 Text.largest_pos)

theorem invokes_overridden :
    Invokes overridden { memorySize := some "64" } { memorySize := 64 } ",." [97] := by
  have hwords : Collects ["-m", "64"] { memorySize := some "64" } :=
    .memorySize .nothing (.apart (.full (by decide)) (by decide +kernel))
  have hsettles : ({ memorySize := some "64" } : Choice).Settles overridden.environment
      { memorySize := 64 } :=
    { settles_overridden with memorySize := .read (by decide +kernel) }
  have hsplit : Source.splitBytes [44, 46, 33, 97] = (",.", [97]) := by decide +kernel
  have hgiven : Given overridden none _ _ := .stdin rfl
  rw [hsplit] at hgiven
  exact ⟨.plain hwords, ⟨_, Settings.ofEnvironment_of_settles settles_overridden⟩, hsettles, hgiven⟩

theorem invokes_persistent :
    Invokes persistent {} { maxSteps := some Text.largest } "-[-]" [] := by
  have hsplit : Source.splitBytes [45, 91, 45, 93] = ("-[-]", []) := by decide +kernel
  have hgiven : Given persistent none _ _ := .stdin rfl
  rw [hsplit] at hgiven
  exact ⟨.plain .nothing, ⟨_, Settings.ofEnvironment_of_settles settles_persistent⟩,
    settles_persistent, hgiven⟩

/-- The body of the countdown. -/
def countdownBody : Instruction where
  kind := .run
  deltas := [-1]
  minOffset := some 0
  source := "-"

/-- A countdown from below zero never ends. -/
theorem countdown_never_ends (e : Ending) :
    ¬ EndsWith (runSource "-[-]" {} (.ofBytes []) .buffered) e := by
  intro h
  obtain ⟨p, hp⟩ := (Program.exists_compile_iff "-[-]" true).2 (by decide)
  obtain ⟨e₀, hends, -⟩ := (endsWith_source hp).1 h
  -- After two steps the loop is under way.
  have hrun : (Program.compile "-[-]" true).map (fun p =>
      let e := iterate (step p.code) 2 (.start {} (.ofBytes []) .buffered)
      (e.halt, e.machine.focus, e.machine.cursor, e.machine.tape.pointer, e.machine.tape.cell 0,
        p.code.size)) =
      .ok (.unfinished, .iterate countdownBody (some 3), 1, 0, -1, 4) := by
    decide +kernel
  rw [hp] at hrun
  simp only [Except.map, Except.ok.injEq, Prod.mk.injEq] at hrun
  obtain ⟨hh, hfocus, hcursor, hpointer, hcell, hsize⟩ := hrun
  have hw := walk_of_iterate_unfinished hh
  generalize (iterate (step p.code) 2 _).machine = m at *
  have hendless : Endless countdownBody 1 m := {
    pos := by decide
    delta := by decide
    focus := ⟨_, hfocus⟩
    pointer := by rw [hpointer]
    cell_ne := by rw [hpointer, hcell]; decide
    never := by rw [hpointer, hcell]; decide }
  have hl : m.maxSteps = none := ((regular_code p.code).clock_of_walk rfl hw).2
  have hfault : m.tape.applyFault? countdownBody.deltas 0 countdownBody.minOffset = none :=
    (Tape.applyFault?_congr (u := ⟨#[], 0⟩) hpointer _ _ _).trans (by decide)
  have hpass := Tape.applied_of_none (by decide) hfault 1
  exact hendless.not_ends (by omega) hl hpass e₀ (hends.of_walk hw)

theorem run_overridden (patience : Nat) :
    CommandLine.run overridden patience = .error (.numeral .tooLongToWrite) := by
  have hlong : ¬ Text.Short (Text.largest * 1024 : Nat) := by
    rw [Text.short_iff_le_largest]
    have hpos := Text.largest_pos
    omega
  exact run_of_long (Settings.ofEnvironment_of_settles settles_overridden) hlong patience

/-- The countdown exceeds its limit with more steps than can be reported. -/
theorem run_persistent (patience : Nat) :
    (∃ e, runSource "-[-]" { maxSteps := some Text.largest } (.ofBytes []) .buffered patience =
        .ok e ∧ e.halt = .faulted (.stepLimit Text.largest)) ∧
      CommandLine.run persistent patience = .error (.numeral .tooLongToWrite) := by
  obtain ⟨p, hp⟩ := (Program.exists_compile_iff "-[-]" true).2 (by decide)
  have hunlimited : Settings.withLimit { maxSteps := some Text.largest } none = {} := rfl
  have hexceeds : ∃ e, runSource "-[-]" { maxSteps := some Text.largest } (.ofBytes []) .buffered
      patience = .ok e ∧ e.halt = .faulted (.stepLimit Text.largest) ∧
      (Text.largest : Int) < e.machine.steps := by
    refine runSource_exceeds_limit hp rfl (fun e => ?_) patience
    rw [hunlimited]
    exact countdown_never_ends e
  obtain ⟨e, he, hh, hsteps⟩ := hexceeds
  have hlong : ¬ Text.Short e.machine.steps := by
    rw [Text.short_iff_le_largest]
    omega
  exact ⟨⟨e, he, hh⟩, invokes_persistent.breaks_off_of_stepLimit rfl he hh hlong⟩

/-- An invocation is broken off at a memory size of the environment that it does not use, and another
one at the number of its steps. The runs of their programs come to an end. -/
theorem breaks_off_at_long_numbers :
    (Invokes overridden { memorySize := some "64" } { memorySize := 64 } ",." [97] ∧
      (∃ e, runSource ",." { memorySize := 64 } (.ofBytes [97]) .buffered 9 = .ok e ∧
        e.halt = .finished ∧ e.machine.output.buffer.toList = [97]) ∧
      CommandLine.run overridden 9 = .error (.numeral .tooLongToWrite)) ∧
    Invokes persistent {} { maxSteps := some Text.largest } "-[-]" [] ∧
    (∃ e, runSource "-[-]" { maxSteps := some Text.largest } (.ofBytes []) .buffered 9 = .ok e ∧
      e.halt = .faulted (.stepLimit Text.largest)) ∧
    CommandLine.run persistent 9 = .error (.numeral .tooLongToWrite) := by
  have hrun : (runSource ",." { memorySize := 64 } (.ofBytes [97]) .buffered 9).map
      (fun e => (e.halt, e.machine.output.buffer.toList)) = .ok (.finished, [97]) := by
    decide +kernel
  obtain ⟨e, he, hends⟩ := exists_of_map_eq_ok hrun
  obtain ⟨hh, hout⟩ := Prod.mk.inj hends
  exact ⟨⟨invokes_overridden, ⟨e, he, hh, hout⟩, run_overridden 9⟩, invokes_persistent,
    run_persistent 9⟩

end TapeFold.CommandLine
