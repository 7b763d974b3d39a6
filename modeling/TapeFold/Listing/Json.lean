import TapeFold.Listing.Document

/-!
# The JSON layout

One item a line, indented by two for each level. The texts of a listing are printable ASCII with
neither a double quote nor a backslash, so they stand between quotes as they are.
-/

namespace TapeFold.Listing.Json

def indent (depth : Nat) : String := "".pushn ' ' (2 * depth)

/-- Items between brackets, each on a line of its own at `depth`. -/
def block (opening closing : String) (depth : Nat) (items : List String) : String :=
  if items = [] then opening ++ closing
  else
    opening ++ "\n" ++ ",\n".intercalate (items.map (indent depth ++ ·)) ++ "\n" ++
      indent (depth - 1) ++ closing

def array (depth : Nat) (items : List String) : String := block "[" "]" depth items

def object (depth : Nat) (items : List String) : String := block "\x7b" "\x7d" depth items

def key (name : String) : String := "\"" ++ name ++ "\": "

def numbers (depth : Nat) (ns : List Int) : String := array depth (ns.map toString)

def scalar : Scalar → String
  | .int n => toString n
  | .text s => "\"" ++ s ++ "\""

def value (depth : Nat) : Value → String
  | .scalar s => scalar s
  | .numbers ns => numbers depth ns

def entry (depth : Nat) (e : Entry) : String :=
  object depth (e.map fun f => key f.1 ++ value (depth + 1) f.2)

def sectionText (depth : Nat) : Section → String
  | .entries es => array depth (es.map (entry (depth + 1)))
  | .numbers ns => numbers depth ns

def render (d : Document) : String :=
  object 1 (d.map fun s => key s.1 ++ sectionText 2 s.2) ++ "\n"

end TapeFold.Listing.Json
