import Mathlib.Data.List.DropRight
import Mathlib.Data.Nat.Digits.Defs
import TapeFold.Proofs.Refusals

/-!
# The grammar of memory sizes

A memory size is a number in decimal digits, which may be of several scripts, and a unit right after
them, with nothing but blanks around (`Settings.Denotes`). Where all digits of a text are decimal and
they are not too many, a memory size is read just from such texts, and any other text is refused
(`Settings.readMemorySize_accepts`).
-/

namespace TapeFold

/-! ### Blanks around a text -/

namespace Text
variable {p : Char → Bool} {before cs after digits : List Char} {values : List Nat} {c : Char}

theorem trim_eq_rdropWhile (p : Char → Bool) (cs : List Char) :
    trim p cs = (cs.dropWhile p).rdropWhile p := rfl

/-- What is dropped on either side may as well not be there. -/
theorem trim_append (hb : ∀ c ∈ before, p c = true) (ha : ∀ c ∈ after, p c = true) :
    trim p (before ++ cs ++ after) = trim p cs := by
  have hright (l : List Char) : (l ++ after).rdropWhile p = l.rdropWhile p := by
    rw [List.rdropWhile, List.reverse_append,
      List.dropWhile_append_of_pos fun c hc => ha c (List.mem_reverse.1 hc), List.rdropWhile]
  rw [trim_eq_rdropWhile, trim_eq_rdropWhile, List.append_assoc, List.dropWhile_append_of_pos hb]
  by_cases hcs : ∀ c ∈ cs, p c = true
  · rw [List.dropWhile_append_of_pos hcs, List.dropWhile_eq_nil_iff.2 hcs,
      List.dropWhile_eq_nil_iff.2 ha]
  · have hne : ¬ (cs.dropWhile p).isEmpty = true := by
      rwa [List.isEmpty_iff, List.dropWhile_eq_nil_iff]
    rw [List.dropWhile_append, if_neg hne, hright]

/-- A text is what is left when it is trimmed, and what has been dropped around it. -/
theorem exists_append_trim (p : Char → Bool) (cs : List Char) :
    ∃ before after, (∀ c ∈ before, p c = true) ∧ (∀ c ∈ after, p c = true) ∧
      before ++ trim p cs ++ after = cs := by
  refine ⟨cs.takeWhile p, (cs.dropWhile p).rtakeWhile p, fun c hc => List.mem_takeWhile_imp hc,
    fun c hc => List.mem_rtakeWhile_imp hc, ?_⟩
  rw [trim_eq_rdropWhile, List.append_assoc, List.rdropWhile_append_rtakeWhile,
    List.takeWhile_append_dropWhile]

/-! ### Decimal digits -/

/-- No decimal digit of any script is blank. -/
theorem isBlank_of_isDecimal (h : isDecimal c = true) : isBlank c = false := by
  obtain ⟨v, hv⟩ := isDecimal_iff.1 h
  obtain ⟨z, hz, -⟩ := Option.map_eq_some_iff.1 hv
  have hin := List.find?_some hz
  have hmem := List.mem_of_find?_eq_some hz
  simp only [Bool.and_eq_true, decide_eq_true_eq] at hin
  have hapart : ∀ z ∈ zeros, ∀ r ∈ blankRanges, r.2 < z ∨ z + 10 ≤ r.1 := by decide
  rw [isBlank, inRanges, List.any_eq_false]
  intro r hr
  have hout := hapart z hmem r hr
  simp only [Bool.and_eq_true, decide_eq_true_eq]
  omega

theorem isDigit_of_isDecimal (h : isDecimal c = true) : isDigit c = true := by
  rw [isDigit, h, Bool.true_or]

/-- It can be evaluated whether all digits of a text are decimal. -/
theorem all_isDecimal_iff : (cs.all fun c => !isDigit c || isDecimal c) = true ↔
    ∀ c ∈ cs, isDigit c = true → isDecimal c = true := by
  simp [imp_iff_not_or]

/-- Digit values stand for the number that they are the digits of. -/
theorem ofDigits_eq_ofDigits (values : List Nat) :
    ofDigits values = Nat.ofDigits 10 values.reverse := by
  rw [Nat.ofDigits_eq_foldr, List.foldr_reverse, ofDigits]
  simp only [Nat.cast_id, Nat.add_comm]

theorem isDecimal_of_map (h : digits.map decimalValue? = values.map some) :
    ∀ c ∈ digits, isDecimal c = true := by
  intro c hc
  obtain ⟨v, -, hv⟩ := List.mem_map.1 (h ▸ List.mem_map_of_mem hc)
  exact isDecimal_iff.2 ⟨v, hv.symm⟩

theorem filterMap_of_map (h : digits.map decimalValue? = values.map some) :
    digits.filterMap decimalValue? = values := by
  have hid := List.filterMap_map (f := decimalValue?) (g := id) (l := digits)
  rw [h, List.filterMap_map] at hid
  simpa using hid.symm

theorem map_of_isDecimal (h : ∀ c ∈ digits, isDecimal c = true) :
    digits.map decimalValue? = (digits.filterMap decimalValue?).map some := by
  rw [List.map_filterMap]
  induction digits with
  | nil => rfl
  | cons c cs ih =>
    obtain ⟨v, hv⟩ := isDecimal_iff.1 (h c List.mem_cons_self)
    rw [List.map_cons, ih fun c hc => h c (List.mem_cons_of_mem _ hc),
      List.filterMap_cons_some (by rw [hv]; rfl)]
    rw [hv]

end Text

namespace Settings
open Text (isBlank isDigit isDecimal decimalValue?)

/-- The units of memory sizes, with the cells that they stand for. -/
def units : List (String × Nat) :=
  [("", 1), ("B", 1), ("k", 1024), ("M", 1024 ^ 2), ("G", 1024 ^ 3)]

/-- The text is a memory size of so many cells: digits that do not stand for zero, of any scripts, with a
unit right after them and blanks around. -/
inductive Denotes : String → Nat → Prop
  | intro {before digits after : List Char} {values : List Nat} {unit : String} {size : Nat}
      (hbefore : ∀ c ∈ before, isBlank c = true) (hafter : ∀ c ∈ after, isBlank c = true)
      (hne : digits ≠ []) (hvalues : digits.map decimalValue? = values.map some)
      (hunit : (unit, size) ∈ units) (hpos : 0 < Nat.ofDigits 10 values.reverse) :
      Denotes (String.ofList (before ++ (digits ++ unit.toList) ++ after))
        (Nat.ofDigits 10 values.reverse * size)

variable {text unit : String} {n size : Nat}

/-! ### Units -/

theorem unitSize?_eq_some_iff : unitSize? unit = some size ↔ (unit, size) ∈ units := by
  constructor
  · intro h
    rw [unitSize?] at h
    split_ifs at h with hone hk hm hg <;> cases h
    · rcases hone with rfl | rfl <;> decide
    · rw [hk]
      decide
    · rw [hm]
      decide
    · rw [hg]
      decide
  · intro h
    revert h
    simp only [units, List.mem_cons, List.not_mem_nil, or_false, Prod.mk.injEq]
    rintro (⟨rfl, rfl⟩ | ⟨rfl, rfl⟩ | ⟨rfl, rfl⟩ | ⟨rfl, rfl⟩ | ⟨rfl, rfl⟩) <;> decide

/-- A unit has neither digits nor blanks. -/
theorem of_mem_unit (h : (unit, size) ∈ units) :
    0 < size ∧ ∀ c ∈ unit.toList, isDigit c = false ∧ isBlank c = false := by
  have hall : ∀ u ∈ units, 0 < u.2 ∧
      (u.1.toList.all fun c => !isDigit c && !isBlank c) = true := by
    decide
  obtain ⟨hsize, hplain⟩ := hall _ h
  refine ⟨hsize, fun c hc => ?_⟩
  simpa using List.all_eq_true.1 hplain c hc

/-! ### Reading -/

theorem readMemorySize_of_denotes (h : Denotes text n)
    (hlen : (text.toList.filter isDigit).length ≤ Text.digitLimit) : readMemorySize text = .ok n := by
  obtain ⟨hbefore, hafter, hne, hvalues, hunit, hpos⟩ := h
  rename_i before digits after values unit size
  rw [String.toList_ofList] at hlen
  have hdecimal := Text.isDecimal_of_map hvalues
  have hdigit : ∀ c ∈ digits, isDigit c = true := fun c hc =>
    Text.isDigit_of_isDecimal (hdecimal c hc)
  obtain ⟨hsize, hplain⟩ := of_mem_unit hunit
  have htrim : Text.trim isBlank (before ++ (digits ++ unit.toList) ++ after) =
      digits ++ unit.toList := by
    rw [Text.trim_append hbefore hafter]
    refine Text.trim_of_forall fun c hc => ?_
    rcases List.mem_append.1 hc with hc | hc
    · exact Text.isBlank_of_isDecimal (hdecimal c hc)
    · exact (hplain c hc).2
  have htake : unit.toList.takeWhile isDigit = [] ∧
      unit.toList.dropWhile isDigit = unit.toList := by
    cases hu : unit.toList with
    | nil => exact ⟨rfl, rfl⟩
    | cons c cs =>
      have hc : ¬ isDigit c = true := by
        rw [(hplain c (hu ▸ List.mem_cons_self)).1]
        decide
      exact ⟨List.takeWhile_cons_of_neg hc, List.dropWhile_cons_of_neg hc⟩
  have hshort : digits.length ≤ Text.digitLimit := by
    refine Nat.le_trans ?_ hlen
    rw [List.filter_append, List.filter_append, List.filter_append, List.filter_eq_self.2 hdigit]
    simp only [List.length_append]
    omega
  have hread := Text.readNatural_of_isDecimal (String.ofList digits) hdecimal hne
  rw [if_neg (Nat.not_lt.2 hshort), Text.filterMap_of_map hvalues,
    Text.ofDigits_eq_ofDigits] at hread
  have hprod : Nat.ofDigits 10 values.reverse * size ≠ 0 := Nat.ne_of_gt (Nat.mul_pos hpos hsize)
  simp only [readMemorySize, String.toList_ofList, htrim, List.takeWhile_append_of_pos hdigit,
    List.dropWhile_append_of_pos hdigit, htake, List.append_nil, hne, if_false,
    String.ofList_toList, unitSize?_eq_some_iff.2 hunit, hread, hprod]

/-- A number is read from its decimal digits with a unit after them as that many units. -/
theorem readMemorySize_repr_append {k : Nat} (hk : 0 < k) (hshort : Text.Short k)
    (hunit : (unit, size) ∈ units) : readMemorySize (k.repr ++ unit) = .ok (k * size) := by
  have hdigits (c : Char) (hc : c ∈ Nat.toDigits 10 k) : c.isDigit = true :=
    Nat.isDigit_of_mem_toDigits (by decide) (by decide) hc
  have hvalues := Text.map_of_isDecimal fun c hc => Text.isDecimal_of_isDigit (hdigits c hc)
  have hvalue := Text.ofDigits_toDigits k
  rw [Text.ofDigits_eq_ofDigits] at hvalue
  have htext : k.repr ++ unit = String.ofList (([] ++ (Nat.toDigits 10 k ++ unit.toList)) ++ []) := by
    rw [List.nil_append, List.append_nil, String.ofList_append, String.ofList_toList, Nat.repr]
  have hdenotes := @Denotes.intro [] (Nat.toDigits 10 k) [] _ unit size nofun nofun
    Nat.toDigits_ne_nil hvalues hunit (hvalue.symm ▸ hk)
  rw [hvalue, ← htext] at hdenotes
  refine readMemorySize_of_denotes hdenotes ?_
  have hplain : unit.toList.filter isDigit = [] := List.filter_eq_nil_iff.2 fun c hc =>
    Bool.eq_false_iff.1 ((of_mem_unit hunit).2 c hc).1
  rw [String.toList_append, List.filter_append, hplain, List.append_nil, Nat.toList_repr]
  exact (List.length_filter_le _ _).trans (Text.short_iff.1 hshort)

theorem denotes_of_readMemorySize (h : readMemorySize text = .ok n) : Denotes text n := by
  simp only [readMemorySize] at h
  split at h
  · cases h
  rename_i hne
  split at h
  · cases h
  rename_i size hunit
  split at h
  · cases h
  rename_i k hread
  split at h
  · cases h
  rename_i hpos
  cases h
  have hdecimal : ∀ c ∈ sizeDigits text, isDecimal c = true := by
    intro c hc
    by_contra hn
    obtain ⟨e, he⟩ := (Text.readNatural_eq_error_iff (String.ofList (sizeDigits text))
      (not_mem_sizeDigits text) hne).2 (.inl ⟨c, hc, eq_false_of_ne_true hn⟩)
    cases hread.symm.trans he
  have hvalues := Text.map_of_isDecimal hdecimal
  have hk := Text.readNatural_of_isDecimal (String.ofList (sizeDigits text)) hdecimal hne
  split at hk
  · cases hread.symm.trans hk
  obtain rfl := Except.ok.inj (hread.symm.trans hk)
  obtain ⟨before, after, hbefore, hafter, htext⟩ := Text.exists_append_trim isBlank text.toList
  rw [Text.ofDigits_eq_ofDigits] at hpos ⊢
  have hdenotes := Denotes.intro hbefore hafter hne hvalues (unitSize?_eq_some_iff.1 hunit)
    (Nat.pos_of_ne_zero (Nat.ne_zero_of_mul_ne_zero_left hpos))
  rwa [String.toList_ofList, sizeDigits, List.takeWhile_append_dropWhile, htext,
    String.ofList_toList] at hdenotes

/-- The digits of a memory size are all decimal and not too many if those of its text are. -/
theorem not_unreadable (hdecimal : ∀ c ∈ text.toList, isDigit c = true → isDecimal c = true)
    (hlen : (text.toList.filter isDigit).length ≤ Text.digitLimit) : ¬ Unreadable text := by
  have hsub : (sizeDigits text).Sublist text.toList := by
    rw [sizeDigits, Text.trim_eq_rdropWhile]
    exact ((List.takeWhile_sublist _).trans (List.rdropWhile_prefix _ _).sublist).trans
      (List.dropWhile_sublist _)
  have hdigit : ∀ c ∈ sizeDigits text, isDigit c = true := fun c hc => List.mem_takeWhile_imp hc
  intro h
  rcases h.numeral with ⟨c, hc, hn⟩ | hlong
  · rw [hdecimal c (hsub.mem hc) (hdigit c hc)] at hn
    cases hn
  · have hle := (hsub.filter isDigit).length_le
    rw [List.filter_eq_self.2 hdigit] at hle
    omega

/-- A text whose digits are all decimal, and not too many, is read as a memory size of `n` cells just if
it denotes one; if it denotes none it is refused. So is the decimal text of a number, which is read as
that many cells. -/
theorem readMemorySize_accepts (text : String)
    (hdecimal : ∀ c ∈ text.toList, isDigit c = true → isDecimal c = true)
    (hlen : (text.toList.filter isDigit).length ≤ Text.digitLimit) :
    (∀ n, readMemorySize text = .ok n ↔ Denotes text n) ∧
      ((¬ ∃ n, Denotes text n) →
        ∃ e, readMemorySize text = .error e ∧ ∀ m, e ≠ .numeral m) ∧
      ∀ n : Nat, 1 ≤ n → (Nat.toDigits 10 n).length ≤ Text.digitLimit →
        Text.writeInteger n = .ok n.repr ∧ readMemorySize n.repr = .ok n := by
  refine ⟨fun n => ⟨denotes_of_readMemorySize, fun h => readMemorySize_of_denotes h hlen⟩, ?_, ?_⟩
  · intro hnone
    match h : readMemorySize text with
    | .ok n => exact absurd ⟨n, denotes_of_readMemorySize h⟩ hnone
    | .error e =>
      refine ⟨e, rfl, ?_⟩
      rintro m rfl
      exact not_unreadable hdecimal hlen ((reports_readMemorySize text).breaks_off.1 ⟨m, h⟩)
  · intro n hn hdigits
    have hshort := Text.short_iff.2 hdigits
    exact ⟨Text.writeInteger_of_short hshort, readMemorySize_repr hn hshort⟩

/-- The digits of two scripts make one number, and an underscore is no part of one. -/
theorem accepts_mixed_scripts_but_no_underscore :
    (∀ c ∈ " ٣2k\n".toList, isDigit c = true → isDecimal c = true) ∧
      (" ٣2k\n".toList.filter isDigit).length ≤ Text.digitLimit ∧ Denotes " ٣2k\n" 32768 ∧
      (∀ c ∈ "1_0".toList, isDigit c = true → isDecimal c = true) ∧
      ("1_0".toList.filter isDigit).length ≤ Text.digitLimit ∧ (¬ ∃ n, Denotes "1_0" n) ∧
      ∃ e, readMemorySize "1_0" = .error e ∧ ∀ m, e ≠ .numeral m := by
  have hdecimal : ∀ c ∈ " ٣2k\n".toList, isDigit c = true → isDecimal c = true :=
    Text.all_isDecimal_iff.1 (by decide)
  have hlen : (" ٣2k\n".toList.filter isDigit).length ≤ Text.digitLimit := by decide
  have hdecimal' : ∀ c ∈ "1_0".toList, isDigit c = true → isDecimal c = true :=
    Text.all_isDecimal_iff.1 (by decide)
  have hlen' : ("1_0".toList.filter isDigit).length ≤ Text.digitLimit := by decide
  obtain ⟨hreads, -, -⟩ := readMemorySize_accepts " ٣2k\n" hdecimal hlen
  obtain ⟨hreads', hrefuses, -⟩ := readMemorySize_accepts "1_0" hdecimal' hlen'
  have hread : readMemorySize " ٣2k\n" = .ok 32768 := by decide +kernel
  have hnone : ¬ ∃ n, Denotes "1_0" n := by
    rintro ⟨n, hn⟩
    have hunit : readMemorySize "1_0" = .error (.unitUnknown "_0" "1_0") := by decide +kernel
    cases hunit.symm.trans ((hreads' n).2 hn)
  exact ⟨hdecimal, hlen, (hreads 32768).1 hread, hdecimal', hlen', hnone, hrefuses hnone⟩

end Settings

end TapeFold
