import TapeFold.Reference
import TapeFold.Proofs.Marking
import TapeFold.Proofs.Nesting

/-!
# The two bracket checkers

Compilation finds the partner of a closing bracket among the instructions before it, the reference on
a stack of positions. Both accept the balanced texts, name the same fault of any other, and pair the
same brackets (`Program.compile_pairs_as_reference`). To compare partners, `Draft.place?` tells where
the instruction of a symbol stands.
-/

namespace TapeFold

open Outline (index)

namespace Draft

/-- Where compilation puts the instruction of the symbol at `k`, if that is not folded: after those
that the symbols before it have become. -/
def place? (w : List Symbol) (k : Nat) : Option Nat :=
  (addAll {} 0 (w.take k)).toOption.map fun d => d.flush.code.size

variable {d d' : Draft} {v w : List Symbol} {s : Symbol} {p : Nat}

@[simp] theorem outline_empty : ({} : Draft).outline = {} := by
  simp [outline, unlinked]

theorem outline_push_flush (d : Draft) (i : Instruction) :
    (d.flush.push i).outline = { code := d.outline.flush.push (i.withJump none) } := by
  rw [← d.unlinked_flush, ← unlinked_push, outline]
  exact congrArg _ (stretch_flush d)

theorem outline_add (h : d.add p s = .ok d') : d'.outline = d.outline.add s := by
  cases s with
  | act a =>
    cases h
    rfl
  | read =>
    cases h
    exact outline_push_flush d _
  | write =>
    cases h
    exact outline_push_flush d _
  | loopOpen =>
    cases h
    exact outline_push_flush d _
  | loopClose =>
    simp only [add] at h
    split at h
    · cases h
    · cases h
      rename_i opening _
      refine Eq.trans ?_ (outline_push_flush d { kind := .loopClose, source := "]" })
      simp only [outline, push, unlinked_push, unlinked_modify]
      rfl

theorem outline_addAll (h : d.addAll p w = .ok d') :
    d'.outline = w.foldl Outline.add d.outline := by
  induction w generalizing d p with
  | nil =>
    cases h
    rfl
  | cons s w ih =>
    simp only [addAll] at h
    split at h
    · rename_i hs
      rw [ih h, outline_add hs, List.foldl_cons]
    · cases h

/-- What can be added can be added in part. -/
theorem exists_addAll_of_append (h : d.addAll p (v ++ w) = .ok d') :
    ∃ d₀, d.addAll p v = .ok d₀ := by
  rw [addAll_append] at h
  match hv : d.addAll p v with
  | .ok d₀ => exact ⟨d₀, rfl⟩
  | .error e =>
    rw [hv] at h
    cases h

theorem size_flush_of_addAll (h : addAll {} 0 w = .ok d) : d.flush.code.size = index w := by
  rw [← size_unlinked, d.unlinked_flush, outline_addAll h, outline_empty]
  rfl

theorem place?_eq {code : Array Instruction} (h : Program.link w = .ok code) (k : Nat) :
    place? w k = some (index (w.take k)) := by
  obtain ⟨d, hd⟩ : ∃ d, addAll {} 0 w = .ok d := by
    rw [Program.link] at h
    match hd : addAll {} 0 w with
    | .ok d => exact ⟨d, rfl⟩
    | .error e =>
      rw [hd] at h
      cases h
  rw [← List.take_append_drop k w] at hd
  obtain ⟨d₀, hd₀⟩ := exists_addAll_of_append hd
  rw [place?, hd₀, ← size_flush_of_addAll hd₀]
  rfl

end Draft

/-- The instructions at `a` and `b` are linked to each other. -/
def Program.Joins (p : Program) (a b : Nat) : Prop :=
  (∃ x, p.code[a]? = some x ∧ x.jumpTarget = some (b : Int)) ∧
    ∃ y, p.code[b]? = some y ∧ y.jumpTarget = some (a : Int)

def Symbol.isBracket (s : Symbol) : Bool := s = .loopOpen ∨ s = .loopClose

section
variable {w : List Symbol} {pairs : BracketPairs} {code : Array Instruction} {i j k : Nat}
  {s s' : Symbol}

theorem Symbol.not_isAct_of_isBracket (hs : s.isBracket = true) : s.isAct = false := by
  cases s <;> simp_all [Symbol.isBracket, Symbol.isAct]

/-- Every bracket has a partner. -/
theorem Pairing.exists_partner (h : Pairing w w.length pairs []) (hs : w[i]? = some s)
    (hb : s.isBracket = true) :
    ∃ q t, w[q]? = some t ∧ t.isBracket = true ∧ pairs[i]? = some (some q) := by
  have hi := (List.getElem?_eq_some_iff.1 hs).1
  cases s with
  | act a => simp [Symbol.isBracket] at hb
  | read => simp [Symbol.isBracket] at hb
  | write => simp [Symbol.isBracket] at hb
  | loopOpen =>
    rcases h.opens i hi hs with hm | ⟨q, -, -, hq, hp, -⟩
    · simp at hm
    · exact ⟨q, _, hq, rfl, hp⟩
  | loopClose =>
    obtain ⟨q, -, hq, hp, -⟩ := h.closes i hi hs
    exact ⟨q, _, hq, rfl, hp⟩

namespace Linked
variable (h : Linked w pairs code) (linear : Bool)
include h

/-- The instruction of a bracket, with or without marks. -/
theorem exists_bracket (hs : w[i]? = some s) (hb : s.isBracket = true) :
    ∃ x, (Program.withMarks code linear).code[index (w.take i)]? = some x ∧
      x.kind = s.bare.kind ∧ x.jumpTarget = partnerIndex w (pairs.getD i none) := by
  have hi := h.getElem?_index hs (Symbol.not_isAct_of_isBracket hb)
  have hmarks := Program.map_unmarked_eq h (Program.map_unmarked_withMarks h linear)
  obtain ⟨x, hx, hu⟩ := exists_of_unmarked_eq hmarks hi
  have hkind := Instruction.kind_eq_of_unmarked hu
  exact ⟨x, hx, hkind, Instruction.jumpTarget_eq_of_unmarked hu⟩

/-- The target of a bracket is the instruction of its partner. -/
theorem jumpTarget_iff (hs : w[i]? = some s) (hb : s.isBracket = true) (hs' : w[j]? = some s')
    (hb' : s'.isBracket = true) :
    (∃ x, (Program.withMarks code linear).code[index (w.take i)]? = some x ∧
      x.jumpTarget = some (index (w.take j) : Int)) ↔ pairs[i]? = some (some j) := by
  obtain ⟨x, hx, -, hj⟩ := h.exists_bracket linear hs hb
  obtain ⟨q, t, hq, hbq, hp⟩ := h.pairing.exists_partner hs hb
  rw [getD_of_some hp] at hj
  have hinj := index_take_inj hq (Symbol.not_isAct_of_isBracket hbq) hs'
    (Symbol.not_isAct_of_isBracket hb')
  rw [hp, Option.some.injEq, Option.some.injEq, ← hinj]
  constructor
  · rintro ⟨x', hx', ht⟩
    obtain rfl := Option.some.inj (hx'.symm.trans hx)
    exact Int.ofNat_inj.1 (Option.some.inj (hj.symm.trans ht))
  · intro heq
    refine ⟨x, hx, hj.trans ?_⟩
    rw [partnerIndex, Option.map_some, heq]

theorem joins_iff (hs : w[i]? = some s) (hb : s.isBracket = true) (hs' : w[j]? = some s')
    (hb' : s'.isBracket = true) :
    (Program.withMarks code linear).Joins (index (w.take i)) (index (w.take j)) ↔
      pairs.Joins i j :=
  and_congr (h.jumpTarget_iff linear hs hb hs' hb') (h.jumpTarget_iff linear hs' hb' hs hb)

end Linked

end

namespace Program

/-- Compilation and the reference succeed on the balanced texts. On any other, both name the first
closing bracket that closes too much or, if there is none, the leftmost opening bracket that is never
closed. Where they succeed they pair the same brackets, those that close one another. -/
theorem compile_pairs_as_reference (text : String) (linear : Bool) :
    ((∃ p, compile text linear = .ok p) ↔ Symbol.Balanced (Symbol.ofText text)) ∧
    ((∃ pairs, pairBrackets (Symbol.ofText text) = .ok pairs) ↔
      Symbol.Balanced (Symbol.ofText text)) ∧
    (∀ e, (compile text linear = .error e ↔ Symbol.Faulty (Symbol.ofText text) e) ∧
      (pairBrackets (Symbol.ofText text) = .error e ↔ Symbol.Faulty (Symbol.ofText text) e) ∧
      ∀ patience m, Reference.run text patience m = .error e ↔
        Symbol.Faulty (Symbol.ofText text) e) ∧
    ∀ p pairs, compile text linear = .ok p → pairBrackets (Symbol.ofText text) = .ok pairs →
      ∀ i j s s', (Symbol.ofText text)[i]? = some s → s.isBracket = true →
        (Symbol.ofText text)[j]? = some s' → s'.isBracket = true →
        ∃ a b, Draft.place? (Symbol.ofText text) i = some a ∧
          Draft.place? (Symbol.ofText text) j = some b ∧
          p.code[a]?.map Instruction.kind = some s.bare.kind ∧
          p.code[b]?.map Instruction.kind = some s'.bare.kind ∧
          (p.Joins a b ↔ pairs.Joins i j) ∧
          (pairs.Joins i j ↔ Symbol.Closes (Symbol.ofText text) i j ∨
            Symbol.Closes (Symbol.ofText text) j i) := by
  refine ⟨exists_compile_iff text linear, Symbol.balanced_iff.symm, fun e => ?_, ?_⟩
  · have herror := Symbol.pairBrackets_eq_error_iff (w := Symbol.ofText text) (e := e)
    refine ⟨compile_eq_error_iff.trans herror, herror, fun patience m => ?_⟩
    rw [← herror, Reference.run]
    cases pairBrackets (Symbol.ofText text) <;> simp [Except.map]
  · intro p pairs hp hpairs i j s s' hs hb hs' hb'
    obtain ⟨code, hcode, rfl⟩ := exists_link hp
    obtain ⟨pairs', hpairs', hlinked⟩ := exists_linked hcode
    obtain rfl : pairs' = pairs := by
      rw [hpairs] at hpairs'
      exact (Except.ok.inj hpairs').symm
    obtain ⟨x, hx, hxk, -⟩ := hlinked.exists_bracket linear hs hb
    obtain ⟨y, hy, hyk, -⟩ := hlinked.exists_bracket linear hs' hb'
    refine ⟨_, _, Draft.place?_eq hcode i, Draft.place?_eq hcode j, ?_, ?_, ?_, ?_⟩
    · rw [hx, Option.map_some, hxk]
    · rw [hy, Option.map_some, hyk]
    · exact hlinked.joins_iff linear hs hb hs' hb'
    · exact (Symbol.nesting_of_pairBrackets hpairs).joins_iff

/-- The acts `+-` between the brackets fold away, and the inner brackets are still linked. The second
text closes a bracket too much before it leaves another one open. -/
theorem pairs_as_reference_around_folded_acts :
    (∃ p pairs, compile "+>[+-[-]<]" true = .ok p ∧
      pairBrackets (Symbol.ofText "+>[+-[-]<]") = .ok pairs ∧ pairs.Joins 5 7 ∧ p.Joins 2 4) ∧
    Symbol.Faulty (Symbol.ofText "[]+][") (.unopened (some 3)) ∧
    compile "[]+][" true = .error (.unopened (some 3)) := by
  obtain ⟨hok, -, -, hjoins⟩ := compile_pairs_as_reference "+>[+-[-]<]" true
  obtain ⟨-, -, hfault, -⟩ := compile_pairs_as_reference "[]+][" true
  obtain ⟨p, hp⟩ := hok.2 (by decide)
  have hpairs : pairBrackets (Symbol.ofText "+>[+-[-]<]") = .ok
      #[none, none, some 9, none, none, some 7, none, some 5, none, some 2] := by decide
  obtain ⟨a, b, ha, hb, -, -, hlink, -⟩ :=
    hjoins p _ hp hpairs 5 7 .loopOpen .loopClose (by decide) rfl (by decide) rfl
  have hplaces : Draft.place? (Symbol.ofText "+>[+-[-]<]") 5 = some 2 ∧
      Draft.place? (Symbol.ofText "+>[+-[-]<]") 7 = some 4 := by decide +kernel
  obtain rfl := Option.some.inj (ha.symm.trans hplaces.1)
  obtain rfl := Option.some.inj (hb.symm.trans hplaces.2)
  have hfaulty := (hfault (.unopened (some 3))).2.1.1 (by decide)
  exact ⟨⟨p, _, hp, hpairs, ⟨rfl, rfl⟩, hlink.2 ⟨rfl, rfl⟩⟩, hfaulty, (hfault _).1.2 hfaulty⟩

end Program

end TapeFold
