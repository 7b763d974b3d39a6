import TapeFold.Listing.Json
import TapeFold.Listing.Yaml

/-!
# Listings

A compiled program as text to be read: one line for each instruction, or a document in JSON or YAML.
-/

namespace TapeFold

inductive Layout
  | text
  | json
  | yaml
deriving DecidableEq

namespace Layout

def all : List Layout := [text, json, yaml]

def name : Layout → String
  | text => "text"
  | json => "json"
  | yaml => "yaml"

def ofName? (s : String) : Option Layout := all.find? (·.name = s)

end Layout

inductive ListingError
  | unknownLayout (name : String)
deriving DecidableEq

def ListingError.message : ListingError → String
  | unknownLayout name => "Unknown listing format: " ++ name

namespace Listing

/-- The text of `n` with blanks before it up to five characters. -/
def indexText (n : Nat) : String :=
  let digits := toString n
  "".pushn ' ' (5 - digits.length) ++ digits

/-- The symbol that stands for a kind; a run is shown as `+`. -/
def symbolText : Kind → String
  | .run => "+"
  | kind => kind.text

/-- One line: index, symbol, source, shift, offset, target, changes and marks. -/
def line (index : Nat) (i : Instruction) : String :=
  indexText index ++ "  " ++ symbolText i.kind ++ "  '" ++ i.source ++ "' shift=" ++
    toString i.netShift ++ " offset=" ++ toString i.baseOffset ++ " go=" ++
    (match i.jumpTarget with | none => "-" | some n => toString n) ++
    " d=[ " ++ " ".intercalate (i.deltas.map toString) ++ " ]" ++
    (match i.linearFactor with | none => "" | some f => " linear=" ++ toString f) ++
    (match i.scanStep with | none => "" | some k => " scan=" ++ toString k)

def warning (d : Diagnostic) : String :=
  "warning: " ++ d.message ++ " at " ++ toString d.index

def plain (p : Program) : String :=
  "\n".intercalate (p.code.toList.mapIdx line ++ p.diagnostics.map warning) ++ "\n"

def render (p : Program) : Layout → String
  | .text => plain p
  | .json => Json.render (document p)
  | .yaml => Yaml.render (document p)

/-- The listing in the layout of a given name. -/
def renderNamed (p : Program) (name : String) : Except ListingError String :=
  match Layout.ofName? name with
  | some layout => .ok (render p layout)
  | none => .error (.unknownLayout name)

end Listing

end TapeFold
