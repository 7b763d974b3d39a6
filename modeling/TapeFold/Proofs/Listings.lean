import TapeFold.Listing
import TapeFold.Proofs.Rows
import TapeFold.Proofs.Alike

/-!
# Listings as text

Programs with the same listing as text look alike (`Listing.alike_of_plain`). Its lines can be told from
one another by characters that occur in no number and in no source (`Foreign`): a line break ends a line, a
`w` makes it a warning, and an `l` stands for a linear loop.
-/

namespace TapeFold

namespace Listing

def targetText : Option Int → String
  | none => "-"
  | some n => toString n

/-- A mark of a line, with its name. -/
def markText (name : String) : Option Int → String
  | none => ""
  | some n => name ++ toString n

/-- What stands in each line. -/
def fixedParts : List String := ["  ", "  '", "' shift=", " offset=", " go=", " d=[ ", " ]"]

theorem line_eq (k : Nat) (i : Instruction) :
    line k i = indexText k ++ "  " ++ symbolText i.kind ++ "  '" ++ i.source ++ "' shift=" ++
      toString i.netShift ++ " offset=" ++ toString i.baseOffset ++ " go=" ++
      targetText i.jumpTarget ++ " d=[ " ++ " ".intercalate (i.deltas.map toString) ++ " ]" ++
      markText " linear=" i.linearFactor ++ markText " scan=" i.scanStep := rfl

end Listing

/-- A character that occurs in no number and in no source. -/
def Foreign (c : Char) : Prop := c.isDigit = false ∧ c ∉ " +-<>[],.".toList

instance (c : Char) : Decidable (Foreign c) := inferInstanceAs (Decidable (_ ∧ _))

namespace Foreign
variable {c : Char} (h : Foreign c)
include h

theorem ne_toChar (s : Symbol) : s.toChar ≠ c := by
  rintro rfl
  refine h.2 ?_
  cases s with
  | act a => cases a <;> decide
  | _ => decide

theorem not_mem_nat (n : Nat) : c ∉ (toString n).toList := not_mem_toString_nat h.1 n

theorem not_mem_int (n : Int) : c ∉ (toString n).toList :=
  not_mem_toString h.1 (fun he => h.ne_toChar (.act .dec) he.symm) n

theorem not_mem_indexText (n : Nat) : c ∉ (Listing.indexText n).toList := by
  simp only [Listing.indexText, String.toList_append, toList_pushn, List.mem_append,
    List.mem_replicate]
  rintro ((hc | ⟨-, rfl⟩) | hc)
  · cases hc
  · exact h.2 (by decide)
  · exact h.not_mem_nat n hc

theorem not_mem_symbolText (kind : Kind) : c ∉ (Listing.symbolText kind).toList := by
  cases kind with
  | run => exact fun hc => h.ne_toChar (.act .inc) (List.mem_singleton.1 hc).symm
  | loopOpen => exact fun hc => h.ne_toChar .loopOpen (List.mem_singleton.1 hc).symm
  | loopClose => exact fun hc => h.ne_toChar .loopClose (List.mem_singleton.1 hc).symm
  | read => exact fun hc => h.ne_toChar .read (List.mem_singleton.1 hc).symm
  | write => exact fun hc => h.ne_toChar .write (List.mem_singleton.1 hc).symm

theorem not_mem_numbers (ns : List Int) : c ∉ (" ".intercalate (ns.map toString)).toList := by
  intro hc
  rcases mem_intercalate hc with hc | ⟨s, hs, hc⟩
  · exact h.2 (by rw [List.mem_singleton.1 hc]; decide)
  · obtain ⟨n, -, rfl⟩ := List.mem_map.1 hs
    exact h.not_mem_int n hc

theorem not_mem_target (o : Option Int) : c ∉ (Listing.targetText o).toList := by
  cases o with
  | none => exact fun hc => h.ne_toChar (.act .dec) (List.mem_singleton.1 hc).symm
  | some n => exact h.not_mem_int n

theorem mem_mark_iff (name : String) (o : Option Int) :
    c ∈ (Listing.markText name o).toList ↔ o.isSome ∧ c ∈ name.toList := by
  cases o with
  | none => simp [Listing.markText]
  | some n =>
    simp only [Listing.markText, String.toList_append, List.mem_append, h.not_mem_int n, or_false,
      Option.isSome_some, true_and]

/-- A character that occurs in no number, in no source and in no fixed part of a line can only come from
its marks. -/
theorem mem_line_iff {i : Instruction} {k : Nat} (hs : c ∉ i.source.toList)
    (hfixed : ∀ part ∈ Listing.fixedParts, c ∉ part.toList) :
    c ∈ (Listing.line k i).toList ↔
      i.linearFactor.isSome ∧ c ∈ " linear=".toList ∨ i.scanStep.isSome ∧ c ∈ " scan=".toList := by
  simp only [Listing.fixedParts, List.forall_mem_cons] at hfixed
  obtain ⟨h₁, h₂, h₃, h₄, h₅, h₆, h₇, -⟩ := hfixed
  simp only [Listing.line_eq, String.toList_append, List.mem_append, h₁, h₂, h₃, h₄, h₅, h₆, h₇, hs,
    h.not_mem_indexText k, h.not_mem_symbolText i.kind, h.not_mem_int i.netShift,
    h.not_mem_int i.baseOffset, h.not_mem_target i.jumpTarget, h.not_mem_numbers i.deltas,
    h.mem_mark_iff, false_or]

end Foreign

namespace Listing
variable {text text' : String} {linear linear' : Bool} {p q : Program} {i j : Instruction} {k : Nat}
  {c : Char} (hp : Program.compile text linear = .ok p) (hq : Program.compile text' linear' = .ok q)

/-! ### The text layout -/

def lines (p : Program) : List String := p.code.toList.mapIdx line ++ p.diagnostics.map warning

theorem symbolText_inj {a b : Kind} {s t : List Char}
    (h : (symbolText a).toList ++ s = (symbolText b).toList ++ t) : a = b ∧ s = t := by
  cases a <;> cases b <;> first | exact ⟨rfl, (List.cons.inj h).2⟩ | cases (List.cons.inj h).1

theorem line_ne_empty (k : Nat) (i : Instruction) : line k i ≠ "" := by
  intro he
  have hlength := congrArg (·.toList.length) he
  have hblank : "  ".toList.length = 2 := rfl
  have hempty : "".toList.length = 0 := rfl
  simp only [line_eq, String.toList_append, List.length_append] at hlength
  omega

/-- The fixed texts of a diagnostic are one line, without braces. -/
theorem not_mem_message (hc : c = '\n' ∨ c = '\x7d') (d : Diagnostic) : c ∉ d.message.toList := by
  unfold Diagnostic.message
  split <;> rcases hc with rfl | rfl <;> decide

theorem not_mem_warning (d : Diagnostic) : '\n' ∉ (warning d).toList := by
  have hmessage := not_mem_message (.inl rfl) d
  have hnat := (show Foreign '\n' by decide).not_mem_nat d.index
  simpa [warning, hmessage] using hnat

section
include hp

theorem foreign_source (hi : p.code[k]? = some i) (hc : Foreign c) : c ∉ i.source.toList := by
  intro hmem
  obtain ⟨s, hs⟩ := Program.exists_toChar_of_mem_source hp hi hmem
  exact hc.ne_toChar s hs

theorem not_mem_line (hi : p.code[k]? = some i) (hc : c = '\n' ∨ c = 'w') :
    c ∉ (line k i).toList := by
  have hforeign : Foreign c := by rcases hc with rfl | rfl <;> decide
  have hfixed : ∀ part ∈ fixedParts, c ∉ part.toList := by rcases hc with rfl | rfl <;> decide
  rw [hforeign.mem_line_iff (foreign_source hp hi hforeign) hfixed]
  rcases hc with rfl | rfl <;> rintro (⟨-, h⟩ | ⟨-, h⟩) <;> revert h <;> decide

theorem mem_line_linear_iff (hi : p.code[k]? = some i) :
    'l' ∈ (line k i).toList ↔ i.linearFactor.isSome := by
  have hforeign : Foreign 'l' := by decide
  rw [hforeign.mem_line_iff (foreign_source hp hi hforeign) (by decide)]
  simp

end

theorem getElem?_of_mem_mapIdx {β : Type} {f : Nat → Instruction → β} {x : β}
    (h : x ∈ p.code.toList.mapIdx f) : ∃ k i, p.code[k]? = some i ∧ f k i = x := by
  obtain ⟨k, hk⟩ := List.mem_iff_getElem?.1 h
  rw [List.getElem?_mapIdx, Option.map_eq_some_iff, Array.getElem?_toList] at hk
  obtain ⟨i, hi, rfl⟩ := hk
  exact ⟨k, i, hi, rfl⟩

section
include hp

/-- A line holds no line break, and is not empty. -/
theorem of_mem_lines {l : String} (hl : l ∈ lines p) : '\n' ∉ l.toList ∧ l ≠ "" := by
  rcases List.mem_append.1 hl with hl | hl
  · obtain ⟨k, i, hi, rfl⟩ := getElem?_of_mem_mapIdx hl
    exact ⟨not_mem_line hp hi (.inl rfl), line_ne_empty k i⟩
  · obtain ⟨d, -, rfl⟩ := List.mem_map.1 hl
    refine ⟨not_mem_warning d, fun he => ?_⟩
    have hw : 'w' ∈ (warning d).toList := by simp [warning]
    rw [he] at hw
    cases hw

/-- Warnings can be told from instructions. -/
theorem filter_lines (b : Bool) : (lines p).filter (fun l => l.toList.contains 'w' = b) =
    if b then p.diagnostics.map warning else p.code.toList.mapIdx line := by
  have hcode : ∀ l ∈ p.code.toList.mapIdx line, l.toList.contains 'w' = false := by
    intro l hl
    obtain ⟨k, i, hi, rfl⟩ := getElem?_of_mem_mapIdx hl
    simpa using not_mem_line hp hi (.inr rfl)
  have hnotes : ∀ l ∈ p.diagnostics.map warning, l.toList.contains 'w' = true := by
    intro l hl
    obtain ⟨d, -, rfl⟩ := List.mem_map.1 hl
    simp [warning]
  rw [lines, List.filter_append]
  cases b with
  | false =>
    rw [List.filter_eq_self.2 (by simpa using hcode),
      List.filter_eq_nil_iff.2 (by simpa using hnotes), List.append_nil]
    rfl
  | true =>
    rw [List.filter_eq_nil_iff.2 (by simpa using hcode),
      List.filter_eq_self.2 (by simpa using hnotes)]
    rfl

theorem linearLoops_eq_nil_iff_lines :
    p.linearLoops = [] ↔ ∀ l ∈ p.code.toList.mapIdx line, 'l' ∉ l.toList := by
  rw [Program.linearLoops_eq_nil_iff]
  constructor
  · intro h l hl
    obtain ⟨k, i, hi, rfl⟩ := getElem?_of_mem_mapIdx hl
    rw [mem_line_linear_iff hp hi, h k i hi]
    nofun
  · intro h k i hi
    have hmem : line k i ∈ p.code.toList.mapIdx line :=
      List.mem_iff_getElem?.2 ⟨k, by rw [List.getElem?_mapIdx, Array.getElem?_toList, hi]; rfl⟩
    have hn := h _ hmem
    rwa [mem_line_linear_iff hp hi, Option.not_isSome_iff_eq_none] at hn

end

theorem line_inj (hi : '\'' ∉ i.source.toList) (hj : '\'' ∉ j.source.toList)
    (h : line k i = line k j) : i.kind = j.kind ∧ i.source = j.source := by
  have htext := congrArg String.toList h
  simp only [line_eq, String.toList_append, List.append_assoc] at htext
  obtain ⟨hkind, hrest⟩ :=
    symbolText_inj (List.append_cancel_left (List.append_cancel_left htext))
  refine ⟨hkind, String.toList_inj.1 ?_⟩
  exact (append_cons_inj hi hj (List.append_cancel_left hrest)).1

include hp hq in
theorem alike_of_plain (h : plain p = plain q) : p.Alike q := by
  have hlines : lines p = lines q :=
    intercalate_newline_inj (fun _ => of_mem_lines hp) (fun _ => of_mem_lines hq) h
  have hfilter (b : Bool) := congrArg (List.filter fun l => l.toList.contains 'w' = b) hlines
  simp only [filter_lines hp, filter_lines hq] at hfilter
  have hcode := hfilter false
  have hnotes := hfilter true
  simp only [Bool.false_eq_true, if_false, if_true] at hcode hnotes
  refine .of_mapIdx hcode (fun k i j hi hj hij => ?_) ?_ ?_
  · have hquote : Foreign '\'' := by decide
    obtain ⟨hkind, hsource⟩ :=
      line_inj (foreign_source hp hi hquote) (foreign_source hq hj hquote) hij
    exact ⟨hkind, fun _ => hsource⟩
  · rw [linearLoops_eq_nil_iff_lines hp, linearLoops_eq_nil_iff_lines hq, hcode]
  · rw [← List.map_eq_nil_iff (f := warning), hnotes, List.map_eq_nil_iff]

end Listing

end TapeFold
