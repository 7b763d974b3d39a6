import TapeFold.Listing.Document

/-!
# The YAML layout

Block style: a row stands under its key without further indentation, and an empty one is written
`[]`. A text is plain unless it would then be read as something else.
-/

namespace TapeFold.Listing.Yaml

/-- Whether `s` holds a colon and a blank, which would make it a key. -/
def holdsKey : List Char → Bool
  | ':' :: ' ' :: _ => true
  | _ :: cs => holdsKey cs
  | [] => false

/-- Whether a text must stand between quotes: as a folded text, a document marker, an entry of a
row, a merge key or a key. The texts of a listing hold no quote themselves. -/
def needsQuotes (s : String) : Bool :=
  let cs := s.toList
  cs.head? = some '>' || ['-', '-', '-'].isPrefixOf cs || s = "-" || s = "<<" || holdsKey cs

def scalar : Scalar → String
  | .int n => toString n
  | .text s => if needsQuotes s then "'" ++ s ++ "'" else s

/-- The lines of a row of numbers under `key`. -/
def numberLines (key : String) (ns : List Int) : List String :=
  if ns = [] then [key ++ ": []"] else (key ++ ":") :: ns.map fun n => "- " ++ toString n

def fieldLines (key : String) : Value → List String
  | .scalar s => [key ++ ": " ++ scalar s]
  | .numbers ns => numberLines key ns

/-- Marks the first line as the start of an item, and indents the others below it. -/
def itemLines : List String → List String
  | [] => []
  | first :: rest => ("- " ++ first) :: rest.map ("  " ++ ·)

def entryLines (e : Entry) : List String :=
  itemLines (e.flatMap fun f => fieldLines f.1 f.2)

def sectionLines (key : String) : Section → List String
  | .numbers ns => numberLines key ns
  | .entries [] => [key ++ ": []"]
  | .entries es => (key ++ ":") :: es.flatMap entryLines

def render (d : Document) : String :=
  String.join ((d.flatMap fun s => sectionLines s.1 s.2).map (· ++ "\n"))

end TapeFold.Listing.Yaml
