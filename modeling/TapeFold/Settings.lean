import TapeFold.Text.Numeral
import TapeFold.Tape

/-!
# Settings

What a run can be told: the initial size of the tape, the value read after the end of the input,
whether linear loops are marked, and a limit on the steps. Settings come with defaults, which
variables of the environment override.
-/

namespace TapeFold

/-- Why settings are refused, or why a number in them is no number at all. -/
inductive SettingsError
  | sizeMissing (value : String)
  | unitUnknown (unit value : String)
  | sizeNotPositive (value : String)
  | notInteger (name value : String)
  | notBoolean (name value : String)
  | memorySizeNotPositive (size : Int)
  | maxStepsNotPositive (limit : Int)
  | numeral (e : Text.NumeralError)
deriving DecidableEq

namespace SettingsError

open Text (quoted)

def message : SettingsError → String
  | sizeMissing value => "Invalid memory size: " ++ quoted value
  | unitUnknown unit value => "Invalid memory unit " ++ quoted unit ++ " in " ++ quoted value
  | sizeNotPositive value => "Memory size must be positive: " ++ quoted value
  | notInteger name value => name ++ " must be an integer, got " ++ quoted value
  | notBoolean name value => name ++ " must be a boolean, got " ++ quoted value
  | memorySizeNotPositive size => "memory_size must be positive, got " ++ toString size
  | maxStepsNotPositive limit => "max_steps must be positive, got " ++ toString limit
  | numeral e => e.message

end SettingsError

structure Settings where
  memorySize : Int := Tape.defaultSize
  eofValue : Int := -1
  linear : Bool := true
  maxSteps : Option Int := none
deriving DecidableEq

namespace Settings

/-- The number of cells that a unit stands for. -/
def unitSize? (unit : String) : Option Nat :=
  if unit = "" ∨ unit = "B" then some 1
  else if unit = "k" then some 1024
  else if unit = "M" then some (1024 * 1024)
  else if unit = "G" then some (1024 * 1024 * 1024)
  else none

/-- The number of cells that a text such as `256`, `64k` or `2M` stands for. -/
def readMemorySize (text : String) : Except SettingsError Nat :=
  let value := Text.trim Text.isBlank text.toList
  let shown := String.ofList value
  let digits := value.takeWhile Text.isDigit
  let unit := String.ofList (value.dropWhile Text.isDigit)
  if digits = [] then .error (.sizeMissing shown)
  else
    match unitSize? unit with
    | none => .error (.unitUnknown unit shown)
    | some unitSize =>
      match Text.readNatural (String.ofList digits) digits with
      | .error e => .error (.numeral e)
      | .ok n => if n * unitSize = 0 then .error (.sizeNotPositive shown) else .ok (n * unitSize)

/-- The truth value that a text stands for, in any mixture of cases. -/
def readBool? (text : String) : Option Bool :=
  let word := String.ofList ((Text.trim Text.isBlank text.toList).map Char.toLower)
  if word ∈ ["1", "true", "yes", "on"] then some true
  else if word ∈ ["0", "false", "no", "off"] then some false
  else none

/-- The settings themselves, or the first reason to refuse them. -/
def check (s : Settings) : Except SettingsError Settings :=
  if s.memorySize ≤ 0 then .error (.memorySizeNotPositive s.memorySize)
  else
    match s.maxSteps with
    | some limit => if limit ≤ 0 then .error (.maxStepsNotPositive limit) else .ok s
    | none => .ok s

/-- The variables that settings are read from, with their values. -/
abbrev Environment := List (String × String)

/-- The value of a variable. A variable with an empty value is not set. -/
def lookup? (env : Environment) (name : String) : Option String :=
  (env.lookup name).filter (· ≠ "")

/-- The value of a variable read by `read`, or `default` if the variable is not set. -/
def readVariable {α : Type} (env : Environment) (name : String) (default : α)
    (read : String → Except SettingsError α) : Except SettingsError α :=
  match lookup? env name with
  | some value => read value
  | none => .ok default

def readInteger (name value : String) : Except SettingsError Int :=
  match Text.readInteger value with
  | .ok n => .ok n
  | .error _ => .error (.notInteger name value)

def readBool (name value : String) : Except SettingsError Bool :=
  match readBool? value with
  | some b => .ok b
  | none => .error (.notBoolean name value)

def memorySizeVariable : String := "BFFOLD_MEMORY_SIZE"

def eofValueVariable : String := "BFFOLD_EOF_VALUE"

def linearVariable : String := "BFFOLD_LINEAR"

def maxStepsVariable : String := "BFFOLD_MAX_STEPS"

/-- The settings that the environment asks for. -/
def ofEnvironment (env : Environment) : Except SettingsError Settings := do
  let defaults : Settings := {}
  let memorySize ← readVariable env memorySizeVariable defaults.memorySize
    fun value => (readMemorySize value).map Int.ofNat
  let eofValue ← readVariable env eofValueVariable defaults.eofValue
    (readInteger eofValueVariable)
  let linear ← readVariable env linearVariable defaults.linear (readBool linearVariable)
  let maxSteps ← readVariable env maxStepsVariable defaults.maxSteps
    fun value => (readInteger maxStepsVariable value).map some
  check { memorySize, eofValue, linear, maxSteps }

end Settings

end TapeFold
