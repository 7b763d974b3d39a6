import TapeFold.CommandLine.Options
import TapeFold.CommandLine.Files

/-!
# The command line

One invocation, from its words, environment, files and standard input to its exit code and what it
writes. Without a file the program is read from standard input up to the first `!`, and the rest is
its input; a file holds a program only, and all of standard input is its input.
-/

namespace TapeFold.CommandLine

inductive ExitCode
  | success
  | notCompiled
  | usage
  | aborted
  | interrupted
deriving DecidableEq

def ExitCode.toNat : ExitCode → Nat
  | success => 0
  | notCompiled => 1
  | usage => 2
  | aborted => 3
  | interrupted => 130

/-- What an invocation is given. -/
structure Surroundings where
  words : List String
  environment : Settings.Environment
  openFile : String → Except FileError (List UInt8)
  stdin : Input

/-- The outcome of an invocation that ends in order. A `complaint` is the last line on standard
error, after which nothing is reported; `timed` says that the time of the run is shown. -/
structure Report where
  exitCode : ExitCode
  stdout : List UInt8 := []
  stdin : Input
  timed : Bool := false
  complaint : Option String := none
  logFormat : LogFormat := .console
  events : List Event := []

/-- The line that shows the time of a run, in seconds with six decimals. -/
def timeLine (nanoseconds : Nat) : String :=
  let micros := nanoseconds / 1000
  let decimals := toString (micros % 1000000)
  "\nExecuted in " ++ toString (micros / 1000000) ++ "." ++
    "".pushn '0' (6 - decimals.length) ++ decimals ++ "s"

/-- How an invocation can end out of order. -/
inductive Crash
  | numeral (e : Text.NumeralError)
  | fault (f : Fault)
  | unfinished
deriving DecidableEq

/-- The options before any word is read. -/
def defaultOptions (defaults : Settings) (memorySize : String) : Options where
  memorySize
  eofValue := defaults.eofValue
  maxSteps := defaults.maxSteps
  linear := defaults.linear

/-- What `words` ask for. -/
def readRequest (defaults : Options) (words : List String) : Except UsageError Request := do
  let words ← Word.ofTexts words
  match ← Options.readWords { options := defaults } words with
  | none => return .help
  | some r => if r.extras = [] then return .run r.options else throw (.unrecognized r.extras)

/-- The settings that the options amount to. -/
def Options.settings (o : Options) : Except SettingsError Settings := do
  let size ← Settings.readMemorySize o.memorySize
  Settings.check
    { memorySize := size, eofValue := o.eofValue, linear := o.linear, maxSteps := o.maxSteps }

/-- What an invocation will do, decided before anything is read. -/
inductive Plan
  | refuse (complaint : String)
  | help
  | run (options : Options) (settings : Settings)
deriving DecidableEq

/-- What is asked for in an environment and by the words of a command line. -/
def plan (environment : Settings.Environment) (words : List String) : Except Crash Plan :=
  match Settings.ofEnvironment environment with
  | .error (.numeral e) => .error (.numeral e)
  | .error e => .ok (.refuse ("bffold: " ++ e.message))
  | .ok defaults =>
    match Text.writeInteger defaults.memorySize with
    | .error e => .error (.numeral e)
    | .ok memorySize =>
      match readRequest (defaultOptions defaults memorySize) words with
      | .error e => .ok (.refuse ("bffold: error: " ++ e.message))
      | .ok .help => .ok .help
      | .ok (.run o) =>
        match o.settings with
        | .error (.numeral e) => .error (.numeral e)
        | .error e => .ok (.refuse ("bffold: error: " ++ e.message))
        | .ok settings => .ok (.run o settings)

/-- The path of the program, unless it is to be read from standard input. -/
def Options.path? (o : Options) : Option String := o.file.filter (· ≠ "")

/-- The program text and its input, or why there is none. -/
def loadProgram (s : Surroundings) (o : Options) :
    EStateM.Result (Interrupt ⊕ FileError) Input String :=
  match o.path? with
  | some path =>
    match s.openFile path with
    | .ok bytes => .ok (Source.latin1 bytes) s.stdin
    | .error e => .error (.inr e) s.stdin
  | none =>
    match Source.readProgram s.stdin with
    | .ok text rest => .ok text rest
    | .error e rest => .error (.inl e) rest

/-- The report on a run, given the events before its end. -/
def reportEnding (o : Options) (e : Ending) (events : List Event) : Except Crash Report :=
  let report : Report :=
    { exitCode := .success, stdout := e.machine.output.bytes.toList, stdin := e.machine.input,
      events }
  match e.halt with
  | .finished => .ok { report with timed := o.time }
  | .unfinished => .error .unfinished
  | .faulted .interrupted =>
    .ok { report with exitCode := .interrupted, events := events ++ [.interrupted] }
  | .faulted f =>
    match f with
    | .underflow _ | .stepLimit _ =>
      .ok { report with exitCode := .aborted, events := events ++ [.aborted f.message] }
    | _ => .error (.fault f)

/-- The report on a program that does not compile. -/
def reportBracket (stdin : Input) (e : BracketError) (events : List Event) : Report :=
  { exitCode := .notCompiled, stdin, events := events ++ [.notCompiled e.message] }

/-- Interprets the program text symbol by symbol. -/
def interpretPlainly (o : Options) (settings : Settings) (text : String) (stdin : Input)
    (patience : Nat) : Except Crash Report :=
  match runReference text settings stdin .streaming patience with
  | .error e => .ok (reportBracket stdin e [])
  | .ok e =>
    let first := Machine.start settings stdin .streaming
    reportEnding o e
      (Journal.ofBlank settings.memorySize ++ Journal.ofReference first e.machine)

/-- Compiles the program text, then lists or runs the program. -/
def interpretCompiled (o : Options) (settings : Settings) (text : String) (stdin : Input)
    (patience : Nat) : Except Crash Report :=
  let events := Journal.ofCompilation text settings.linear
  match Program.compile text settings.linear with
  | .error e => .ok (reportBracket stdin e events)
  | .ok program =>
    match o.dump with
    | some layout =>
      let stdout := (Listing.render program layout).toUTF8.toList
      .ok { exitCode := .success, stdout, stdin, events }
    | none =>
      let first := Machine.start settings stdin .streaming
      -- Only debug events come from steps.
      let steps :=
        if o.logLevel = .debug then Journal.ofSteps program.code patience first else []
      let e := Machine.run program.code patience (Machine.start settings stdin .streaming)
      reportEnding o e
        (events ++ Journal.ofBlank settings.memorySize ++ steps ++ Journal.ofEnding e)

/-- Reads and interprets the program. -/
def interpret (s : Surroundings) (o : Options) (settings : Settings) (patience : Nat) :
    Except Crash Report :=
  match loadProgram s o with
  | .error (.inl _) _ => .error (.fault .interrupted)
  | .error (.inr e) stdin =>
    let path := o.path?.getD ""
    .ok { exitCode := .usage, stdin, events := [.unreadable path (e.message path)] }
  | .ok text stdin =>
    if o.naive then interpretPlainly o settings text stdin patience
    else interpretCompiled o settings text stdin patience

/-- Keeps the events to be reported. A number in them that is too long to be written ends the
invocation. -/
def Report.reportEvents (r : Report) (o : Options) : Except Crash Report :=
  let events := r.events.filter (·.isReported o.logLevel)
  if events.all Event.isWritable then .ok { r with events, logFormat := o.logFormat }
  else .error (.numeral .tooLongToWrite)

/-- Carries out a plan. -/
def Plan.carryOut (p : Plan) (s : Surroundings) (patience : Nat) : Except Crash Report :=
  match p with
  | .refuse complaint => .ok { exitCode := .usage, stdin := s.stdin, complaint := some complaint }
  | .help => .ok { exitCode := .success, stdin := s.stdin }
  | .run o settings => do (← interpret s o settings patience).reportEvents o

/-- One invocation. A run without a step limit is given `patience` steps. -/
def run (s : Surroundings) (patience : Nat) : Except Crash Report := do
  (← plan s.environment s.words).carryOut s patience

end TapeFold.CommandLine
