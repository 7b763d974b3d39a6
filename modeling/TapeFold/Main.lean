import TapeFold.CommandLine
import TapeFold.Journal.Layout

/-!
# The program

Gathers what an invocation is given, and carries out what it comes to.
-/

open TapeFold

namespace TapeFold.Console

/-- The steps given to a run without a step limit, more than any run takes. -/
def patience : Nat := Nat.pow 2 62

def usage : String :=
  "usage: bffold [-h] [-m MEMORY_SIZE] [--eof-value EOF_VALUE] [--max-steps MAX_STEPS]\n" ++
  "              [--no-linear] [--naive] [--dump \x7btext,json,yaml\x7d] [--time]\n" ++
  "              [--log-level LEVEL] [--log-format \x7bconsole,json\x7d] [file]\n"

def readEnvironment : IO Settings.Environment := do
  let names := [Settings.memorySizeVariable, Settings.eofValueVariable, Settings.linearVariable,
    Settings.maxStepsVariable]
  names.filterMapM fun name => do
    return (← IO.getEnv name).map fun value => (name, value)

/-- The bytes of a file, or why it cannot be read. -/
def openFile (path : String) : IO (Except CommandLine.FileError (List UInt8)) := do
  try
    return .ok (← IO.FS.readBinFile path).toList
  catch e =>
    return .error (match e with
      | .noFileOrDirectory .. => .notFound
      | .inappropriateType .. => .isDirectory
      | _ => .unreadable)

/-- Reads a stream to its end. -/
partial def readAll (stream : IO.FS.Stream) (seen : ByteArray) : IO ByteArray := do
  let chunk ← stream.read 65536
  if chunk.isEmpty then return seen else readAll stream (seen ++ chunk)

def describe : CommandLine.Crash → String
  | .numeral e => e.message
  | .fault f => f.message
  | .unfinished => "the run does not end"

def showReport (r : CommandLine.Report) : IO Unit := do
  let stdout ← IO.getStdout
  stdout.write (ByteArray.mk r.stdout.toArray)
  stdout.flush
  for e in r.events do
    IO.eprintln (match r.logFormat with | .json => e.jsonLine | .console => e.consoleLine)
  if let some complaint := r.complaint then
    IO.eprint usage
    IO.eprintln complaint

/-- Gathers what a plan needs, carries it out and shows what came of it. -/
def carryOut (environment : Settings.Environment) (words : List String)
    (plan : CommandLine.Plan) : IO UInt32 := do
  let path? := match plan with | .run o _ => o.path? | _ => none
  let file ← match path? with
    | some path => openFile path
    | none => pure (.error .notFound)
  let stdin ← match plan with
    | .run .. => readAll (← IO.getStdin) ByteArray.empty
    | _ => pure ByteArray.empty
  let start ← IO.monoNanosNow
  match plan.carryOut
      { words, environment, openFile := fun _ => file, stdin := .ofBytes stdin.toList }
      patience with
  | .error c =>
    IO.eprintln (describe c)
    return 1
  | .ok r =>
    if plan = .help then IO.print usage
    showReport r
    if r.timed then
      IO.eprintln (CommandLine.timeLine ((← IO.monoNanosNow) - start))
    return UInt32.ofNat r.exitCode.toNat

end TapeFold.Console

def main (words : List String) : IO UInt32 := do
  let environment ← Console.readEnvironment
  match CommandLine.plan environment words with
  | .ok plan => Console.carryOut environment words plan
  | .error c =>
    IO.eprintln (Console.describe c)
    return 1
