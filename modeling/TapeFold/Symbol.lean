/-!
# Symbols

The tape language has eight symbols. Any other character of a text is commentary, and the program in
a text ends at the first `!`.
-/

namespace TapeFold

/-- The four symbols that only change cells and move the pointer. A stretch of them folds into one
run. -/
inductive Act
  | inc
  | dec
  | left
  | right
deriving DecidableEq

inductive Symbol
  | act (a : Act)
  | loopOpen
  | loopClose
  | read
  | write
deriving DecidableEq

/-- The character after which a text holds no more program. -/
def sentinel : Char := '!'

namespace Act

def toChar : Act → Char
  | inc => '+'
  | dec => '-'
  | left => '<'
  | right => '>'

end Act

namespace Symbol

def toChar : Symbol → Char
  | act a => a.toChar
  | loopOpen => '['
  | loopClose => ']'
  | read => ','
  | write => '.'

def ofChar? : Char → Option Symbol
  | '+' => some (act .inc)
  | '-' => some (act .dec)
  | '<' => some (act .left)
  | '>' => some (act .right)
  | '[' => some loopOpen
  | ']' => some loopClose
  | ',' => some read
  | '.' => some write
  | _ => none

theorem ofChar?_toChar (s : Symbol) : ofChar? s.toChar = some s := by
  cases s with
  | act a => cases a <;> rfl
  | _ => rfl

/-- The symbols of the program in `text`, in order. -/
def ofText (text : String) : List Symbol :=
  (text.toList.takeWhile (· != sentinel)).filterMap ofChar?

/-- The text that holds `symbols` and nothing else. -/
def toText (symbols : List Symbol) : String :=
  String.ofList (symbols.map toChar)

end Symbol

end TapeFold
