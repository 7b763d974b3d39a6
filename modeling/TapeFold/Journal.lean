import TapeFold.Interpreter

/-!
# The journal

What the interpreter reports about its own work. Each event has a level and comes from a part of the
interpreter; only events of the chosen level or a graver one are reported. The events of a run are
read off its history, so runs themselves keep no journal.
-/

namespace TapeFold

inductive Level
  | debug
  | info
  | warning
  | error
  | critical
deriving DecidableEq

namespace Level

def all : List Level := [debug, info, warning, error, critical]

def name : Level → String
  | debug => "debug"
  | info => "info"
  | warning => "warning"
  | error => "error"
  | critical => "critical"

/-- The name of a level on the command line. -/
def optionName : Level → String
  | debug => "DEBUG"
  | info => "INFO"
  | warning => "WARNING"
  | error => "ERROR"
  | critical => "CRITICAL"

def gravity : Level → Nat
  | debug => 0
  | info => 1
  | warning => 2
  | error => 3
  | critical => 4

end Level

inductive Event
  | compiled (instructions linearLoops scanLoops diagnostics : Nat)
  | unopened (position : Int)
  | unclosed (index position : Nat)
  | endlessLoop (diagnostic : Diagnostic) (body : String)
  | tapeCapped (requested size : Int)
  | tapeGrown (size amount : Nat)
  | fellBack (cursor value factor : Int)
  | finished (steps linearEvaluations fallbackPasses scanPasses tapeSize : Nat)
  | failed (cursor pointer : Int) (steps : Nat) (error : String)
  | notCompiled (error : String)
  | aborted (error : String)
  | unreadable (file error : String)
  | interrupted
deriving DecidableEq

/-- A value that an event is reported with. -/
inductive Detail
  | number (n : Int)
  | text (s : String)
deriving DecidableEq

namespace Event

def level : Event → Level
  | compiled .. | tapeCapped .. | tapeGrown .. | fellBack .. | finished .. => .debug
  | interrupted => .info
  | endlessLoop .. => .warning
  | unopened .. | unclosed .. | failed .. | notCompiled .. | aborted .. | unreadable .. => .error

/-- The part of the interpreter that an event comes from. -/
def origin : Event → String
  | compiled .. | unopened .. | unclosed .. | endlessLoop .. => "bffold.compiler"
  | tapeCapped .. | tapeGrown .. => "bffold.core.tape"
  | fellBack .. | finished .. | failed .. => "bffold.engine"
  | notCompiled .. | aborted .. | unreadable .. | interrupted => "bffold.cli"

def title : Event → String
  | compiled .. => "Compiled program"
  | unopened .. => "Unmatched loop close"
  | unclosed .. => "Unmatched loop open"
  | endlessLoop diagnostic _ => diagnostic.message
  | tapeCapped .. => "Initial tape size capped"
  | tapeGrown .. => "Tape grown"
  | fellBack .. => "Linear loop falling back to iteration"
  | finished .. => "Execution finished"
  | failed .. => "Execution failed"
  | notCompiled .. => "Compilation failed"
  | aborted .. => "Execution aborted"
  | unreadable .. => "Could not read program"
  | interrupted => "Interrupted by user"

/-- What an event is reported with, by name. -/
def details : Event → List (String × Detail)
  | compiled instructions linearLoops scanLoops diagnostics =>
    [("instructions", .number instructions), ("linear_loops", .number linearLoops),
      ("scan_loops", .number scanLoops), ("diagnostics", .number diagnostics)]
  | unopened position => [("position", .number position)]
  | unclosed index position => [("index", .number index), ("position", .number position)]
  | endlessLoop diagnostic body => [("index", .number diagnostic.index), ("body", .text body)]
  | tapeCapped requested size => [("requested", .number requested), ("size", .number size)]
  | tapeGrown size amount => [("size", .number size), ("grow_by", .number amount)]
  | fellBack cursor value factor =>
    [("cursor", .number cursor), ("value", .number value), ("factor", .number factor)]
  | finished steps linearEvaluations fallbackPasses scanPasses tapeSize =>
    [("steps", .number steps), ("linear_evaluations", .number linearEvaluations),
      ("fallback_passes", .number fallbackPasses), ("scan_passes", .number scanPasses),
      ("tape_size", .number tapeSize)]
  | failed cursor pointer steps error =>
    [("cursor", .number cursor), ("pointer", .number pointer), ("steps", .number steps),
      ("error", .text error)]
  | notCompiled error | aborted error => [("error", .text error)]
  | unreadable file error => [("file", .text file), ("error", .text error)]
  | interrupted => []

/-- Whether an event is reported when `threshold` is the lowest level reported. -/
def isReported (threshold : Level) (e : Event) : Bool :=
  threshold.gravity ≤ e.level.gravity

/-- Whether all numbers of an event can be written. -/
def isWritable (e : Event) : Bool :=
  e.details.all fun d =>
    match d.2 with
    | .number n => (Text.writeInteger n).isOk
    | .text _ => true

end Event

namespace Journal

/-- The events of a compilation. -/
def ofCompilation (text : String) (linear : Bool) : List Event :=
  match Program.compile text linear with
  | .ok p =>
    let body (d : Diagnostic) : String :=
      ((p.code[d.index + 1]?).map Instruction.text).getD ""
    p.diagnostics.map (fun d => .endlessLoop d (body d)) ++
      [.compiled p.code.size p.linearLoops.length p.scanLoops.length p.diagnostics.length]
  | .error (.unopened (some position)) => [.unopened position]
  | .error (.unopened none) => []
  | .error (.unclosed position) =>
    -- The instructions before the bracket are those of the symbols before it.
    match Draft.addAll {} 0 ((Symbol.ofText text).take position) with
    | .ok d => [.unclosed d.flush.code.size position]
    | .error _ => []

/-- The events of making a tape. -/
def ofBlank (size : Int) : List Event :=
  if Tape.maxInitialSize < size then [.tapeCapped size Tape.maxInitialSize] else []

/-- The growth of a tape of `size` cells when the cell `index` is made addressable, and its size
then. -/
def ofGrowth (size : Nat) (index : Int) : List Event × Nat :=
  if index < size then ([], size)
  else ([.tapeGrown (index.toNat + 1) (index.toNat + 1 - size)], index.toNat + 1)

/-- The growth of a tape when deltas are applied to it. -/
def ofApply (t : Tape) (i : Instruction) : List Event × Nat :=
  if i.deltas = [] ∨ (t.applyFault? i.deltas i.baseOffset i.minOffset).isSome then ([], t.size)
  else ofGrowth t.size (t.pointer + i.baseOffset + i.deltas.length - 1)

/-- The growth of a tape of `size` cells when the pointer moves from `pointer` by `amount`. -/
def ofShift (size : Nat) (pointer amount : Int) : List Event :=
  if 0 < amount then (ofGrowth size (pointer + amount)).1 else []

/-- The events of the opening of a loop that stands at the cursor. -/
def ofLoop (code : Array Instruction) (m : Machine) (loop : Instruction) : List Event :=
  let value := (m.visibleCell?).getD 0
  match loop.linearFactor, fetch? code (m.cursor + 1) with
  | some factor, some body =>
    if value = 0 then []
    else if 0 < value ∧ value % factor = 0 then (ofApply m.tape body).1
    else [.fellBack m.cursor value factor]
  | _, _ => []

/-- The events of what the machine does next, once it has counted the step. -/
def ofStep (code : Array Instruction) (m : Machine) : List Event :=
  match m.focus with
  | .iterate body _ => (ofApply m.tape body).1
  | .scan step _ => ofShift m.tape.size m.tape.pointer step
  | .dispatch =>
    match fetch? code m.cursor with
    | none => []
    | some i =>
      match i.kind with
      | .run =>
        let (events, size) := ofApply m.tape i
        if (m.tape.applyFault? i.deltas i.baseOffset i.minOffset).isSome then events
        else events ++ ofShift size m.tape.pointer i.netShift
      | .loopOpen => ofLoop code m i
      | _ => []

/-- The events of the end of a run of compiled code. -/
def ofEnding (e : Ending) : List Event :=
  let m := e.machine
  match e.halt with
  | .finished =>
    [.finished m.steps m.linearEvaluations m.fallbackPasses m.scanPasses m.tape.size]
  | .faulted f =>
    match f with
    | .underflow _ | .stepLimit _ => [.failed m.cursor m.tape.pointer m.steps f.message]
    | _ => []
  | .unfinished => []

/-- Whether the next step exceeds the limit, so that nothing more happens. -/
def isSpent (m : Machine) : Bool :=
  m.maxSteps.any fun (limit : Int) => limit < m.steps + 1

/-- The events of the steps of a run of compiled code. -/
def ofSteps (code : Array Instruction) (patience : Nat) (m : Machine) : List Event :=
  let view (m : Machine) : List Event := if isSpent m then [] else ofStep code m
  (m.history view code (m.stepBound?.getD patience) #[]).toList.flatten

/-- The events of a run of the reference that leaves the machine `last`. The pointer moves by one
cell at a time, so the tape grows one by one. -/
def ofReference (first last : Machine) : List Event :=
  (List.range (last.tape.size - first.tape.size)).map fun k =>
    .tapeGrown (first.tape.size + k + 1) 1

end Journal

end TapeFold
