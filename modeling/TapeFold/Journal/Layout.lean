import TapeFold.Journal

/-!
# How events are shown

An event is shown on one line, either for a reader or as a JSON object.
-/

namespace TapeFold.Event

/-- Four hexadecimal digits for each sixteen-bit unit of a character. -/
def unitEscapes (c : Char) : List Char :=
  let unit (n : Nat) : List Char := '\\' :: 'u' :: Text.hexText 4 n
  let n := c.toNat
  if n < 0x10000 then unit n
  else unit (0xD800 + (n - 0x10000) / 0x400) ++ unit (0xDC00 + (n - 0x10000) % 0x400)

def jsonEscape (c : Char) : List Char :=
  if c = '"' ∨ c = '\\' then ['\\', c]
  else if c = '\n' then ['\\', 'n']
  else if c = '\r' then ['\\', 'r']
  else if c = '\t' then ['\\', 't']
  else if 0x20 ≤ c.toNat ∧ c.toNat < 0x7F then [c]
  else unitEscapes c

def jsonText (s : String) : String :=
  String.ofList ('"' :: s.toList.flatMap jsonEscape ++ ['"'])

def jsonDetail : Detail → String
  | .number n => toString n
  | .text s => jsonText s

/-- The event as a JSON object on one line. -/
def jsonLine (e : Event) : String :=
  let fields := e.details.map (fun d => (d.1, jsonDetail d.2)) ++
    [("event", jsonText e.title), ("logger", jsonText e.origin), ("level", jsonText e.level.name)]
  "\x7b" ++ ", ".intercalate (fields.map fun f => jsonText f.1 ++ ": " ++ f.2) ++ "\x7d"

def consoleDetail : Detail → String
  | .number n => toString n
  | .text s => Text.quoted s

/-- The event for a reader. -/
def consoleLine (e : Event) : String :=
  " ".intercalate (("[" ++ e.level.name ++ "]") :: e.title :: ("[" ++ e.origin ++ "]") ::
    e.details.map fun d => d.1 ++ "=" ++ consoleDetail d.2)

end TapeFold.Event
