import TapeFold.Compile
import TapeFold.Execution
import TapeFold.Reference
import TapeFold.Settings
import TapeFold.Source

/-!
# The interpreter

A program text run under given settings, compiled or by the reference.
-/

namespace TapeFold

/-- A machine at the start of a run. -/
def Machine.start (settings : Settings) (input : Input) (output : Output) : Machine where
  tape := Tape.blank settings.memorySize
  input
  output
  eofValue := settings.eofValue
  maxSteps := settings.maxSteps

/-- Compiles the program in `text` and runs it. -/
def runSource (text : String) (settings : Settings) (input : Input) (output : Output)
    (patience : Nat) : Except BracketError Ending :=
  (Program.compile text settings.linear).map fun program =>
    Machine.run program.code patience (Machine.start settings input output)

/-- Runs the program in `text` symbol by symbol. -/
def runReference (text : String) (settings : Settings) (input : Input) (output : Output)
    (patience : Nat) : Except BracketError Ending :=
  Reference.run text patience (Machine.start settings input output)

end TapeFold
