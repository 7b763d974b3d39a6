import Mathlib.Data.List.Induction
import TapeFold.Proofs.Stretch

/-!
# The outline of a program

`Outline.bare w` is the code of the symbols `w` with no brackets linked, and `Outline.index v` the
number of its instructions that stand for the prefix `v` of the symbols: the place of the instruction
of the symbol that follows.
-/

namespace TapeFold

namespace Symbol

def isAct : Symbol → Bool
  | act _ => true
  | _ => false

/-- The instruction of a symbol that is not folded, without partner. -/
def bare : Symbol → Instruction
  | act _ => { kind := .run }
  | loopOpen => { kind := .loopOpen, source := "[" }
  | loopClose => { kind := .loopClose, source := "]" }
  | read => { kind := .read, source := "," }
  | write => { kind := .write, source := "." }

end Symbol

/-- A draft without its links. -/
structure Outline where
  code : Array Instruction := #[]
  stretch : Option Fold := none

namespace Outline

def flush (o : Outline) : Array Instruction :=
  match o.stretch.bind Fold.build with
  | some run => o.code.push run
  | none => o.code

def add (o : Outline) : Symbol → Outline
  | .act a => { o with stretch := some ((o.stretch.getD {}).feed a) }
  | s => { code := o.flush.push s.bare }

/-- The outline of a list of symbols. -/
def of (w : List Symbol) : Outline := w.foldl add {}

/-- The code of `w` without its links. -/
def bare (w : List Symbol) : Array Instruction := (of w).flush

/-- The number of instructions of `v`. -/
def index (v : List Symbol) : Nat := (bare v).size

variable {o : Outline} {u : List Act} {v w rest : List Symbol} {s : Symbol} {r i : Instruction}
  {k : Nat}

@[simp] theorem of_nil : of [] = {} := rfl

theorem of_append (v w : List Symbol) : of (v ++ w) = w.foldl add (of v) := List.foldl_append

theorem of_act (v : List Symbol) (a : Act) :
    of (v ++ [.act a]) = { of v with stretch := some (((of v).stretch.getD {}).feed a) } := by
  rw [of_append]
  rfl

theorem of_snoc (hs : s.isAct = false) : of (v ++ [s]) = { code := (bare v).push s.bare } := by
  rw [of_append]
  cases s with
  | act a => cases hs
  | _ => rfl

theorem flush_of_none (h : o.stretch = none) : o.flush = o.code := by
  rw [flush, h]
  rfl

theorem bare_of_none (h : (of v).stretch = none) : bare v = (of v).code := flush_of_none h

theorem index_of_none (h : (of v).stretch = none) : index v = (of v).code.size := by
  rw [index, bare_of_none h]

theorem stretch_snoc (hs : s.isAct = false) : (of (v ++ [s])).stretch = none := by
  rw [of_snoc hs]

theorem flush_eq (o : Outline) :
    o.flush = o.code ∨ ∃ f r, o.stretch = some f ∧ f.build = some r ∧ o.flush = o.code.push r := by
  unfold flush
  cases o.stretch with
  | none => exact .inl rfl
  | some f =>
    cases hr : f.build with
    | none => exact .inl (by simp [hr])
    | some r => exact .inr ⟨f, r, rfl, hr, by simp [hr]⟩

/-! ### Code only grows at its end -/

/-- The code `a` is the first part of `b`. -/
structure Extends (a b : Array Instruction) : Prop where
  size_le : a.size ≤ b.size
  getElem?_eq : ∀ k, k < a.size → b[k]? = a[k]?

namespace Extends
variable {a b d : Array Instruction}

theorem refl (a : Array Instruction) : Extends a a := ⟨Nat.le_refl _, fun _ _ => rfl⟩

theorem trans (h : Extends a b) (h' : Extends b d) : Extends a d :=
  ⟨Nat.le_trans h.size_le h'.size_le, fun k hk =>
    (h'.getElem?_eq k (Nat.lt_of_lt_of_le hk h.size_le)).trans (h.getElem?_eq k hk)⟩

theorem push (a : Array Instruction) (i : Instruction) : Extends a (a.push i) := by
  refine ⟨by rw [Array.size_push]; omega, fun k hk => ?_⟩
  rw [Array.getElem?_push, if_neg (by omega)]

theorem getElem?_of_some (h : Extends a b) (hi : a[k]? = some i) : b[k]? = some i := by
  rw [h.getElem?_eq k (Array.getElem?_eq_some_iff.1 hi).1, hi]

end Extends

theorem extends_flush (o : Outline) : Extends o.code o.flush := by
  rcases flush_eq o with h | ⟨_, r, -, -, h⟩ <;> rw [h]
  · exact Extends.refl _
  · exact Extends.push _ r

theorem extends_snoc (hs : s.isAct = false) : Extends (bare v) (of (v ++ [s])).code := by
  rw [of_snoc hs]
  exact Extends.push _ _

theorem extends_append (v w : List Symbol) : Extends (of v).code (of (v ++ w)).code := by
  induction w generalizing v with
  | nil => rw [List.append_nil]; exact Extends.refl _
  | cons s w ih =>
    rw [List.append_cons]
    refine Extends.trans ?_ (ih _)
    by_cases hs : s.isAct = false
    · exact (extends_flush _).trans (extends_snoc hs)
    · obtain ⟨a, rfl⟩ : ∃ a, s = .act a := by cases s <;> simp_all [Symbol.isAct]
      rw [of_act]
      exact Extends.refl _

/-- What stands before a symbol that is not folded stays as it is. -/
theorem extends_bare (v : List Symbol) {s : Symbol} (hs : s.isAct = false) (w : List Symbol) :
    Extends (bare v) (bare (v ++ s :: w)) := by
  rw [List.append_cons]
  exact (extends_snoc hs).trans ((extends_append _ w).trans (extends_flush _))

/-! ### Where the instructions stand -/

theorem index_snoc (hs : s.isAct = false) : index (v ++ [s]) = index v + 1 := by
  rw [index_of_none (stretch_snoc hs), of_snoc hs, Array.size_push]
  rfl

/-- No more instructions come of symbols than there are symbols. -/
theorem index_le_length (v : List Symbol) : index v ≤ v.length := by
  have hflush (o : Outline) : o.flush.size ≤ o.code.size + o.stretch.toList.length := by
    rcases flush_eq o with h | ⟨f, r, hf, -, h⟩
    · rw [h]
      omega
    · rw [h, hf, Array.size_push]
      exact Nat.le_refl _
  -- a stretch that is being folded stands for one symbol at least
  have hsize : (of v).code.size + (of v).stretch.toList.length ≤ v.length := by
    induction v using List.reverseRecOn with
    | nil => exact Nat.le_refl 0
    | append_singleton v s ih =>
      rw [List.length_append, List.length_singleton]
      cases s with
      | act a =>
        rw [of_act]
        show (of v).code.size + 1 ≤ v.length + 1
        omega
      | _ =>
        rw [of_snoc rfl, Array.size_push]
        have := hflush (of v)
        show (bare v).size + 1 + 0 ≤ v.length + 1
        rw [bare]
        omega
  exact Nat.le_trans (hflush _) hsize

theorem getElem?_bare_index (v : List Symbol) (hs : s.isAct = false) (w : List Symbol) :
    (bare (v ++ s :: w))[index v]? = some s.bare := by
  have h : (of (v ++ [s])).code[index v]? = some s.bare := by
    rw [of_snoc hs, index, Array.getElem?_push_size]
  rw [List.append_cons]
  exact ((extends_append _ w).trans (extends_flush _)).getElem?_of_some h

theorem index_lt (v : List Symbol) (hs : s.isAct = false) (w : List Symbol) :
    index v < index (v ++ s :: w) := by
  have h := Array.getElem?_eq_some_iff.1 (getElem?_bare_index v hs w)
  exact h.1

theorem of_acts (h : (of v).stretch = none) (u : List Act) (hu : u ≠ []) :
    of (v ++ u.map .act) = { of v with stretch := some (Fold.ofActs u) } := by
  induction u using List.reverseRecOn with
  | nil => exact absurd rfl hu
  | append_singleton u a ih =>
    rw [List.map_append, ← List.append_assoc, List.map_singleton, of_act]
    by_cases hu' : u = []
    · subst hu'
      rw [List.map_nil, List.append_nil, h]
      rfl
    · rw [ih hu', Fold.ofActs, Fold.ofActs, List.foldl_append]
      rfl

theorem bare_acts (h : (of v).stretch = none) (u : List Act) :
    bare (v ++ u.map .act) = match (Fold.ofActs u).build with
      | some r => (bare v).push r
      | none => bare v := by
  by_cases hu : u = []
  · subst hu
    rw [List.map_nil, List.append_nil]
    rfl
  · rw [bare_of_none h, bare, of_acts h u hu]
    rfl

theorem getElem?_flush (h : o.flush[k]? = some i) : o.code[k]? = some i ∨ i.kind = .run := by
  rcases flush_eq o with hf | ⟨f, r, -, hr, hf⟩
  · exact .inl (hf ▸ h)
  · rw [hf, Array.getElem?_push] at h
    split at h
    · injection h with hi
      obtain ⟨ds, base, low, rfl⟩ := Fold.eq_run_of_build hr
      exact .inr (hi ▸ rfl)
    · exact .inl h

/-- An instruction that is no run stands for a symbol that is not folded. -/
theorem exists_symbol (h : (bare w)[k]? = some i) (hi : i.kind ≠ .run) :
    ∃ v s rest, w = v ++ s :: rest ∧ s.isAct = false ∧ index v = k := by
  replace h := (getElem?_flush h).resolve_right hi
  induction w using List.reverseRecOn with
  | nil => simp at h
  | append_singleton w s ih =>
    have hw : (of w).code[k]? = some i → ∃ v s' rest, w ++ [s] = v ++ s' :: rest ∧
        s'.isAct = false ∧ index v = k := fun h' => by
      obtain ⟨v, s', rest, rfl, hs', hk⟩ := ih h'
      exact ⟨v, s', rest ++ [s], by rw [List.append_assoc]; rfl, hs', hk⟩
    by_cases hs : s.isAct = false
    · rw [of_snoc hs, Array.getElem?_push] at h
      split at h
      · exact ⟨w, s, [], rfl, hs, Eq.symm ‹_›⟩
      · exact hw ((getElem?_flush h).resolve_right hi)
    · obtain ⟨a, rfl⟩ : ∃ a, s = .act a := by cases s <;> simp_all [Symbol.isAct]
      rw [of_act] at h
      exact hw h

/-- What holds of the instruction of every symbol and of every run holds of all code. -/
theorem forall_bare {P : Instruction → Prop} (hsym : ∀ s : Symbol, s.isAct = false → P s.bare)
    (hrun : ∀ f r, Fold.build f = some r → P r) (h : (bare w)[k]? = some i) : P i := by
  have hflush {o : Outline} (ho : ∀ (k : Nat) (i : Instruction), o.code[k]? = some i → P i)
      (k : Nat) (i : Instruction) (h : o.flush[k]? = some i) : P i := by
    rcases flush_eq o with hf | ⟨f, r, -, hr, hf⟩
    · exact ho k i (hf ▸ h)
    · rw [hf, Array.getElem?_push] at h
      split at h
      · cases h
        exact hrun f _ hr
      · exact ho k i h
  refine hflush (fun k i hi => ?_) k i h
  clear h
  induction w using List.reverseRecOn generalizing k i with
  | nil => simp at hi
  | append_singleton w s ih =>
    by_cases hs : s.isAct = false
    · rw [of_snoc hs, Array.getElem?_push] at hi
      split at hi
      · cases hi
        exact hsym s hs
      · exact hflush ih k i hi
    · obtain ⟨a, rfl⟩ : ∃ a, s = .act a := by cases s <;> simp_all [Symbol.isAct]
      rw [of_act] at hi
      exact ih k i hi

theorem unmarked (h : (bare w)[k]? = some i) : i.Unmarked := by
  refine forall_bare (fun s _ => ?_) (fun f r hr => ?_) h
  · cases s <;> exact ⟨rfl, rfl⟩
  · obtain ⟨ds, base, low, rfl⟩ := Fold.eq_run_of_build hr
    exact ⟨rfl, rfl⟩

end Outline

end TapeFold
