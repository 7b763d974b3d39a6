import TapeFold.Text.Digit
import TapeFold.Text.Quoted

/-!
# Numerals

Whole numbers as a user writes them: blanks around, at most one sign, and decimal digits of any
script, with single underscores between digits. A numeral holds at most 4300 digits, and a number
with more is not written out either.
-/

namespace TapeFold.Text

/-- The most digits that a number is read or written with. -/
def digitLimit : Nat := 4300

/-- Why a text is no number, or a number no text. -/
inductive NumeralError
  | invalid (text : String)
  | tooLong (digits : Nat)
  | tooLongToWrite
deriving DecidableEq

namespace NumeralError

/-- A message shows at most this many characters of a text that is no numeral, quotes and all. -/
def shownLength : Nat := 200

def message : NumeralError → String
  | invalid text =>
    "invalid literal for int() with base 10: " ++
      String.ofList ((quoted text).toList.take shownLength)
  | tooLong digits =>
    "Exceeds the limit (" ++ toString digitLimit ++
      " digits) for integer string conversion: value has " ++ toString digits ++
      " digits; use sys.set_int_max_str_digits() to increase the limit"
  | tooLongToWrite =>
    "Exceeds the limit (" ++ toString digitLimit ++
      " digits) for integer string conversion; use sys.set_int_max_str_digits() " ++
      "to increase the limit"

end NumeralError

/-- The number that digit values stand for, the most significant first. -/
def ofDigits (values : List Nat) : Nat :=
  values.foldl (fun n v => 10 * n + v) 0

/-- The values of the digits that `cs` starts with, and the rest. A single underscore may stand
between two digits. -/
def takeDigits : List Char → List Nat × List Char
  | [] => ([], [])
  | '_' :: cs => ([], '_' :: cs)
  | c :: '_' :: d :: cs =>
    match decimalValue? c with
    | none => ([], c :: '_' :: d :: cs)
    | some v =>
      if isDecimal d then
        let (vs, rest) := takeDigits (d :: cs)
        (v :: vs, rest)
      else ([v], '_' :: d :: cs)
  | c :: cs =>
    match decimalValue? c with
    | none => ([], c :: cs)
    | some v =>
      let (vs, rest) := takeDigits cs
      (v :: vs, rest)

/-- The digits of an unsigned numeral with nothing around it. A number that is too long is reported
as such only if it is followed by something other than an underscore. -/
def readNatural (text : String) (cs : List Char) : Except NumeralError Nat :=
  let (values, rest) := takeDigits cs
  if values = [] ∨ rest.head? = some '_' then .error (.invalid text)
  else if digitLimit < values.length then .error (.tooLong values.length)
  else if rest ≠ [] then .error (.invalid text)
  else .ok (ofDigits values)

/-- The number that `text` stands for. -/
def readInteger (text : String) : Except NumeralError Int :=
  match trim isNumeralBlank text.toList with
  | '+' :: cs => (readNatural text cs).map Int.ofNat
  | '-' :: cs => (readNatural text cs).map fun n => -Int.ofNat n
  | cs => (readNatural text cs).map Int.ofNat

/-- The decimal text of `n`, or an error if it has too many digits. -/
def writeInteger (n : Int) : Except NumeralError String :=
  if n.natAbs < Nat.pow 10 digitLimit then .ok (toString n) else .error .tooLongToWrite

end TapeFold.Text
