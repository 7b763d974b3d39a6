import TapeFold.Symbol
import TapeFold.Instruction

/-!
# Matching brackets

Two ways to pair brackets: `matchingOpen?` looks back from a closing bracket over the instructions
before it, and `pairBrackets` keeps a stack while it goes through the symbols.
-/

namespace TapeFold

/-- A bracket without partner, with its position among the symbols where that is known. -/
inductive BracketError
  | unopened (position : Option Int)
  | unclosed (position : Nat)
deriving DecidableEq

namespace BracketError

def message : BracketError → String
  | unopened none => "unbalanced ']'"
  | unopened (some p) => "unbalanced ']' (symbol " ++ toString p ++ ")"
  | unclosed p => "unbalanced '[' (symbol " ++ toString p ++ ")"

end BracketError

/-- The last opening loop among the first `n` instructions that is left open when `closed` more
closing ones are to be matched first. -/
def openBefore? (code : Array Instruction) : (n : Nat) → (closed : Nat) → Option Nat
  | 0, _ => none
  | n + 1, closed =>
    match code[n]?.map Instruction.kind, closed with
    | some .loopClose, closed => openBefore? code n (closed + 1)
    | some .loopOpen, 0 => some n
    | some .loopOpen, closed + 1 => openBefore? code n closed
    | _, closed => openBefore? code n closed

/-- The opening loop that a closing one after `code` belongs to. -/
def matchingOpen? (code : Array Instruction) : Option Nat :=
  openBefore? code code.size 0

/-- The partner of each bracket, by position among the symbols. -/
abbrev BracketPairs := Array (Option Nat)

/-- Pairs the brackets of `symbols`, the first of which stands at `position`. The stack holds the
positions of the brackets that are open, innermost first. -/
def pairFrom (pairs : BracketPairs) (stack : List Nat) (position : Nat) :
    List Symbol → Except BracketError BracketPairs
  | [] =>
    match stack.getLast? with
    | none => .ok pairs
    | some outermost => .error (.unclosed outermost)
  | .loopOpen :: symbols => pairFrom (pairs.push none) (position :: stack) (position + 1) symbols
  | .loopClose :: symbols =>
    match stack with
    | [] => .error (.unopened (some position))
    | opening :: stack =>
      pairFrom ((pairs.setIfInBounds opening (some position)).push (some opening)) stack
        (position + 1) symbols
  | _ :: symbols => pairFrom (pairs.push none) stack (position + 1) symbols

def pairBrackets (symbols : List Symbol) : Except BracketError BracketPairs :=
  pairFrom #[] [] 0 symbols

end TapeFold
