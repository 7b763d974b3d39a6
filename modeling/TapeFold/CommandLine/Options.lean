import TapeFold.Listing
import TapeFold.Journal

/-!
# Options

How the words of a command line are understood. A word is an option if it starts with a dash, unless
it is a lone dash, a negative number or, when it is not close to any option, has a space in it. A
long option may be shortened as long as it stays unambiguous, and its value may follow an equals
sign. After `--` no word is an option.
-/

namespace TapeFold.CommandLine

inductive Flag
  | help
  | memorySize
  | eofValue
  | maxSteps
  | noLinear
  | naive
  | dump
  | time
  | logLevel
  | logFormat
deriving DecidableEq

namespace Flag

def all : List Flag :=
  [help, memorySize, eofValue, maxSteps, noLinear, naive, dump, time, logLevel, logFormat]

/-- The ways to write a flag in full. -/
def spellings : Flag → List String
  | help => ["-h", "--help"]
  | memorySize => ["-m", "--memory-size"]
  | eofValue => ["--eof-value"]
  | maxSteps => ["--max-steps"]
  | noLinear => ["--no-linear"]
  | naive => ["--naive"]
  | dump => ["--dump"]
  | time => ["--time"]
  | logLevel => ["--log-level"]
  | logFormat => ["--log-format"]

def takesValue : Flag → Bool
  | help | noLinear | naive | time => false
  | _ => true

/-- The values that a flag admits, if they are few. -/
def choices : Flag → List String
  | dump => Layout.all.map Layout.name
  | logLevel => Level.all.map Level.optionName
  | logFormat => ["console", "json"]
  | _ => []

def title (f : Flag) : String := "/".intercalate f.spellings

/-- All spellings with their flags, in the order in which they are proposed. -/
def table : List (String × Flag) :=
  all.flatMap fun f => f.spellings.map (·, f)

def ofSpelling? (s : String) : Option Flag := table.lookup s

end Flag

/-- Why a command line is not understood. -/
inductive UsageError
  | ambiguous (word : String) (matched : List String)
  | valueMissing (f : Flag)
  | valueIgnored (f : Flag) (value : String)
  | notInteger (f : Flag) (value : String)
  | notChoice (f : Flag) (value : String)
  | unrecognized (words : List String)
deriving DecidableEq

namespace UsageError

open Text (quoted)

def about (f : Flag) (message : String) : String :=
  "argument " ++ f.title ++ ": " ++ message

def message : UsageError → String
  | ambiguous word matched =>
    "ambiguous option: " ++ word ++ " could match " ++ ", ".intercalate matched
  | valueMissing f => about f "expected one argument"
  | valueIgnored f value => about f ("ignored explicit argument " ++ quoted value)
  | notInteger f value => about f ("invalid int value: " ++ quoted value)
  | notChoice f value =>
    about f ("invalid choice: " ++ quoted value ++ " (choose from " ++
      ", ".intercalate (f.choices.map quoted) ++ ")")
  | unrecognized words => "unrecognized arguments: " ++ " ".intercalate words

end UsageError

/-- A value written in one word with its option. It is `glued` if no equals sign stands before it.
-/
structure Attached where
  glued : Bool
  value : String
deriving DecidableEq

/-- A word of the command line. An option that is not known has no flag. -/
inductive Word
  | operand (text : String)
  | option (flag : Option Flag) (short : Bool) (attached : Option Attached) (text : String)
  | separator
deriving DecidableEq

namespace Word

/-- The text before the first equals sign, and the text after it if there is one. -/
def cutAtEquals (cs : List Char) : String × Option String :=
  let rest := cs.dropWhile (· != '=')
  (String.ofList (cs.takeWhile (· != '=')),
    if rest = [] then none else some (String.ofList rest.tail))

/-- A dash and decimal digits, with at most one point among or before them, and perhaps a line break
after them. -/
def isNegativeNumber : List Char → Bool
  | '-' :: cs =>
    let cs := if cs.getLast? = some '\n' then cs.dropLast else cs
    let whole := cs.takeWhile Text.isDecimal
    match cs.dropWhile Text.isDecimal with
    | [] => whole ≠ []
    | '.' :: fraction => fraction ≠ [] && fraction.all Text.isDecimal
    | _ => false
  | _ => false

/-- The options that a word may abbreviate, by spelling. A long option may be cut short; a short one
may have its value glued to it. -/
def candidates (cs : List Char) : List (String × Word) :=
  let text := String.ofList cs
  match cs with
  | '-' :: '-' :: _ =>
    let (start, value) := cutAtEquals cs
    (Flag.table.filter fun e => start.toList.isPrefixOf e.1.toList).map fun e =>
      (e.1, .option e.2 false (value.map (⟨false, ·⟩)) text)
  | '-' :: c :: value =>
    (Flag.table.filter fun e => e.1.toList = ['-', c]).map fun e =>
      (e.1, .option e.2 true (some ⟨true, String.ofList value⟩) text)
  | _ => []

/-- What a word is that looks like an option but is not written in full. -/
def ofUnknown (cs : List Char) : Except UsageError Word :=
  let text := String.ofList cs
  match candidates cs with
  | [(_, word)] => .ok word
  | [] =>
    if isNegativeNumber cs ∨ ' ' ∈ cs then .ok (.operand text)
    else .ok (.option none false none text)
  | several => .error (.ambiguous text (several.map (·.1)))

/-- What a word is that stands before any `--`. -/
def ofText (text : String) : Except UsageError Word :=
  match text.toList with
  | '-' :: c :: cs =>
    let short := c ≠ '-'
    match Flag.ofSpelling? text, cutAtEquals ('-' :: c :: cs) with
    | some flag, _ => .ok (.option flag short none text)
    | none, (name, some value) =>
      match Flag.ofSpelling? name with
      | some flag => .ok (.option flag short (some ⟨false, value⟩) text)
      | none => ofUnknown ('-' :: c :: cs)
    | none, (_, none) => ofUnknown ('-' :: c :: cs)
  | _ => .ok (.operand text)

/-- What the words of a command line are. -/
def ofTexts : List String → Except UsageError (List Word)
  | [] => .ok []
  | text :: texts =>
    if text = "--" then .ok (.separator :: texts.map .operand)
    else do
      let word ← ofText text
      let words ← ofTexts texts
      return word :: words

end Word

inductive LogFormat
  | console
  | json
deriving DecidableEq

/-- What a command line asks for. -/
structure Options where
  file : Option String := none
  memorySize : String
  eofValue : Int
  maxSteps : Option Int
  linear : Bool
  naive : Bool := false
  dump : Option Layout := none
  time : Bool := false
  logLevel : Level := .warning
  logFormat : LogFormat := .console
deriving DecidableEq

/-- A request to run, or to be told what can be asked for. -/
inductive Request
  | run (options : Options)
  | help
deriving DecidableEq

namespace Options

/-- Takes the value of an option. -/
def setValue (o : Options) (f : Flag) (value : String) : Except UsageError Options :=
  match f with
  | .memorySize => .ok { o with memorySize := value }
  | .eofValue =>
    match Text.readInteger value with
    | .ok n => .ok { o with eofValue := n }
    | .error _ => .error (.notInteger f value)
  | .maxSteps =>
    match Text.readInteger value with
    | .ok n => .ok { o with maxSteps := some n }
    | .error _ => .error (.notInteger f value)
  | .dump =>
    match Layout.ofName? value with
    | some layout => .ok { o with dump := some layout }
    | none => .error (.notChoice f value)
  | .logLevel =>
    match Level.all.find? (·.optionName = value) with
    | some level => .ok { o with logLevel := level }
    | none => .error (.notChoice f value)
  | .logFormat =>
    if value = "console" then .ok { o with logFormat := .console }
    else if value = "json" then .ok { o with logFormat := .json }
    else .error (.notChoice f value)
  | _ => .ok o

/-- Takes an option without value. -/
def setFlag (o : Options) : Flag → Options
  | .noLinear => { o with linear := false }
  | .naive => { o with naive := true }
  | .time => { o with time := true }
  | _ => o

/-- Whether the letters glued to `-h` are understood, the first ones being options too. A request
for help is then granted. The flag says whether an operand follows. -/
def helpCluster (operandNext : Bool) : List Char → Except UsageError Unit
  | [] => .ok ()
  | '-' :: cs => .error (.valueIgnored .help (String.ofList ('-' :: cs)))
  | 'h' :: '=' :: cs => .error (.valueIgnored .help (String.ofList cs))
  | 'h' :: cs => helpCluster operandNext cs
  | ['m'] => if operandNext then .ok () else .error (.valueMissing .memorySize)
  | _ => .ok ()

/-- What is being read off a command line: the options so far, whether the file is settled, and the
words that nothing has taken. -/
structure Reading where
  options : Options
  settled : Bool := false
  extras : List String := []

/-- Takes an operand, which is the file unless that is settled. -/
def Reading.takeOperand (r : Reading) (text : String) : Reading :=
  if r.settled then { r with extras := r.extras ++ [text] }
  else { r with options := { r.options with file := some text }, settled := true }

/-- Reads the words in order. The separator is dropped when it stands next to the file. -/
def readWords (r : Reading) : List Word → Except UsageError (Option Reading)
  | [] => .ok (some r)
  | .operand text :: .separator :: words =>
    let r' := r.takeOperand text
    readWords (if r.settled then r'.takeOperand "--" else r') words
  | .operand text :: words => readWords (r.takeOperand text) words
  | .separator :: words => readWords (if r.settled then r.takeOperand "--" else r) words
  | .option none _ _ text :: words => readWords { r with extras := r.extras ++ [text] } words
  | .option (some flag) short attached _ :: words =>
    match attached with
    | some a =>
      if flag.takesValue then do
        let options ← r.options.setValue flag a.value
        readWords { r with options } words
      else if short ∧ a.glued then do
        helpCluster (match words with | .operand _ :: _ => true | _ => false) a.value.toList
        return none
      else .error (.valueIgnored flag a.value)
    | none =>
      if flag = .help then .ok none
      else if flag.takesValue then
        match words with
        | .operand value :: words => do
          let options ← r.options.setValue flag value
          readWords { r with options } words
        | _ => .error (.valueMissing flag)
      else readWords { r with options := r.options.setFlag flag } words

end Options

end TapeFold.CommandLine
