import Mathlib.Data.List.Basic
import Mathlib.Data.List.TakeWhile
import TapeFold.Settings

/-!
# Reading back a number

A number that is written out in decimal digits is read back from them, as a memory size too, as long as
it has no more digits than a number may be written with (`Settings.readMemorySize_toString`).
-/

namespace TapeFold

namespace Text

/-- The number has no more digits than a number may be written with. -/
def Short (n : Int) : Prop := n.natAbs < Nat.pow 10 digitLimit

instance (n : Int) : Decidable (Short n) := inferInstanceAs (Decidable (_ < _))

/-- The largest number that can be written. -/
def largest : Nat := Nat.pow 10 digitLimit - 1

variable {c : Char} {cs : List Char}

theorem writeInteger_of_short {n : Int} (h : Short n) : writeInteger n = .ok (toString n) := if_pos h

theorem isOk_writeInteger_iff {n : Int} : (writeInteger n).isOk = true ↔ Short n := by
  by_cases h : Short n
  · rw [writeInteger_of_short h]
    exact iff_of_true rfl h
  · have hwrite : writeInteger n = .error .tooLongToWrite := if_neg h
    rw [hwrite]
    exact iff_of_false nofun h

theorem short_iff_le_largest {n : Int} : Short n ↔ n.natAbs ≤ largest := by
  rw [Short, largest]
  -- The power is not to be computed.
  generalize digitLimit = limit
  exact Nat.lt_iff_le_pred (Nat.pow_pos (by decide))

theorem short_largest : Short largest := short_iff_le_largest.2 (Nat.le_refl _)

theorem largest_pos : 0 < largest := by decide +kernel

theorem short_iff {n : Nat} : Short n ↔ (Nat.toDigits 10 n).length ≤ digitLimit := by
  have hpos : 0 < digitLimit := by decide
  rw [Short]
  -- The power is not to be computed.
  generalize digitLimit = limit at hpos ⊢
  exact (Nat.length_toDigits_le_iff (by decide) hpos).symm

theorem decimalValue?_of_isDigit (h : c.isDigit = true) : decimalValue? c = some (c.toNat - 48) := by
  have hc : 48 ≤ c.toNat ∧ c.toNat ≤ 57 := Char.isDigit_iff_toNat.1 h
  rw [decimalValue?, zeros, List.find?_cons_of_pos]
  · rfl
  · simp only [Bool.and_eq_true, decide_eq_true_eq]
    omega

theorem isDigit_of_isDigit (h : c.isDigit = true) : isDigit c = true := by
  rw [isDigit, isDecimal, decimalValue?_of_isDigit h]
  rfl

theorem isBlank_of_isDigit (h : c.isDigit = true) : isBlank c = false := by
  have hc : 48 ≤ c.toNat ∧ c.toNat ≤ 57 := Char.isDigit_iff_toNat.1 h
  rw [isBlank, inRanges, List.any_eq_false]
  intro r hr
  have hout : r.2 < 48 ∨ 57 < r.1 := by
    revert r
    decide
  simp only [Bool.and_eq_true, decide_eq_true_eq]
  omega

/-- Nothing is dropped from a text without blanks. -/
theorem trim_of_forall {p : Char → Bool} (h : ∀ c ∈ cs, p c = false) : trim p cs = cs := by
  have hdrop (l : List Char) (hl : ∀ c ∈ l, p c = false) : l.dropWhile p = l := by
    cases l with
    | nil => rfl
    | cons c l => rw [List.dropWhile_cons, if_neg (by simp [hl c])]
  rw [trim, hdrop cs h, hdrop _ fun c hc => h c (List.mem_reverse.1 hc), List.reverse_reverse]

theorem isDecimal_iff {c : Char} : isDecimal c = true ↔ ∃ v, decimalValue? c = some v :=
  Option.isSome_iff_exists

/-- Without underscores the decimal digits at the start are taken. -/
theorem takeDigits_eq (h : '_' ∉ cs) : takeDigits cs =
    ((cs.takeWhile isDecimal).filterMap decimalValue?, cs.dropWhile isDecimal) := by
  induction cs with
  | nil => rfl
  | cons c cs ih =>
    rw [List.mem_cons, not_or] at h
    rw [takeDigits, ih h.2]
    · cases hc : decimalValue? c with
      | none =>
        have hdec : ¬ isDecimal c = true := by simp [isDecimal, hc]
        rw [List.takeWhile_cons_of_neg hdec, List.dropWhile_cons_of_neg hdec]
        rfl
      | some v =>
        have hdec : isDecimal c = true := isDecimal_iff.2 ⟨v, hc⟩
        rw [List.takeWhile_cons_of_pos hdec, List.dropWhile_cons_of_pos hdec,
          List.filterMap_cons_some hc]
    · exact fun he => h.1 he.symm
    · rintro d ds rfl
      exact h.2 List.mem_cons_self

/-- Decimal digits of any script are a numeral, if they are not too many. -/
theorem readNatural_of_isDecimal (text : String) (h : ∀ c ∈ cs, isDecimal c = true) (hne : cs ≠ []) :
    readNatural text cs =
      if digitLimit < cs.length then .error (.tooLong cs.length)
      else .ok (ofDigits (cs.filterMap decimalValue?)) := by
  have hscore : '_' ∉ cs := fun hc => absurd (h _ hc) (by decide)
  have hlen : (cs.filterMap decimalValue?).length = cs.length :=
    List.filterMap_length_eq_length.2 h
  have hvalues : cs.filterMap decimalValue? ≠ [] := by
    rw [← List.length_pos_iff, hlen, List.length_pos_iff]
    exact hne
  rw [readNatural, takeDigits_eq hscore, List.takeWhile_eq_self_iff.2 h,
    List.dropWhile_eq_nil_iff.2 h]
  simp only [hvalues, List.head?_nil, reduceCtorEq, or_self, if_false, hlen, ne_eq, not_true_eq_false]

theorem ofDigits_eq (cs : List Char) :
    ofDigits (cs.map fun c => c.toNat - 48) = Nat.ofDigitChars 10 cs 0 := by
  rw [ofDigits, List.foldl_map]
  rfl

theorem isDecimal_of_isDigit (h : c.isDigit = true) : isDecimal c = true :=
  isDecimal_iff.2 ⟨_, decimalValue?_of_isDigit h⟩

theorem ofDigits_filterMap (h : ∀ c ∈ cs, c.isDigit = true) :
    ofDigits (cs.filterMap decimalValue?) = Nat.ofDigitChars 10 cs 0 := by
  have hvalues : cs.filterMap decimalValue? = cs.filterMap fun c => some (c.toNat - 48) :=
    List.filterMap_congr fun c hc => decimalValue?_of_isDigit (h c hc)
  rw [hvalues, List.filterMap_eq_map', ofDigits_eq]

/-- The decimal digits of a number stand for it. -/
theorem ofDigits_toDigits (n : Nat) :
    ofDigits ((Nat.toDigits 10 n).filterMap decimalValue?) = n := by
  rw [ofDigits_filterMap fun _ hc => Nat.isDigit_of_mem_toDigits (by decide) (by decide) hc,
    Nat.ofDigitChars_toDigits (by decide) (by decide)]

/-- A number is read back from its decimal digits. -/
theorem readNatural_toDigits (text : String) {n : Nat} (h : Short n) :
    readNatural text (Nat.toDigits 10 n) = .ok n := by
  have hdecimal (c : Char) (hc : c ∈ Nat.toDigits 10 n) : isDecimal c = true :=
    isDecimal_of_isDigit (Nat.isDigit_of_mem_toDigits (by decide) (by decide) hc)
  rw [readNatural_of_isDecimal text hdecimal Nat.toDigits_ne_nil,
    if_neg (Nat.not_lt.2 (short_iff.1 h)), ofDigits_toDigits]

/-- A number is read back from its decimal text. -/
theorem readInteger_repr {n : Nat} (h : Short n) : readInteger n.repr = .ok n := by
  have hdigits (c : Char) (hc : c ∈ Nat.toDigits 10 n) : c.isDigit = true :=
    Nat.isDigit_of_mem_toDigits (by decide) (by decide) hc
  have htrim : trim isNumeralBlank (Nat.toDigits 10 n) = Nat.toDigits 10 n :=
    trim_of_forall fun c hc => by
      rw [isNumeralBlank, isBlank_of_isDigit (hdigits c hc), Bool.false_and]
  rw [readInteger, Nat.toList_repr, htrim]
  split
  · rename_i cs hcs
    exact absurd (hdigits '+' (hcs ▸ List.mem_cons_self)) (by decide)
  · rename_i cs hcs
    exact absurd (hdigits '-' (hcs ▸ List.mem_cons_self)) (by decide)
  · rw [readNatural_toDigits n.repr h]
    rfl

/-- Characters that are not all decimal, or are too many, are no numeral. -/
theorem readNatural_eq_error_iff (text : String) (h : '_' ∉ cs) (hne : cs ≠ []) :
    (∃ e, readNatural text cs = .error e) ↔
      (∃ c ∈ cs, isDecimal c = false) ∨ digitLimit < cs.length := by
  by_cases hall : ∀ c ∈ cs, isDecimal c = true
  · have hnone : ¬ ∃ c ∈ cs, isDecimal c = false := fun ⟨c, hc, hn⟩ => by
      rw [hall c hc] at hn
      cases hn
    rw [readNatural_of_isDecimal text hall hne, or_iff_right hnone]
    split <;> simp [*]
  · have hhead : (cs.dropWhile isDecimal).head? ≠ some '_' := fun hu =>
      h ((List.dropWhile_sublist _).mem (List.mem_of_head? hu))
    have hrest : cs.dropWhile isDecimal ≠ [] := fun he => hall (List.dropWhile_eq_nil_iff.1 he)
    have hsome : ∃ c ∈ cs, isDecimal c = false := by simpa using hall
    rw [readNatural, takeDigits_eq h]
    simp only [hhead, or_false, hrest, ne_eq, not_false_eq_true, if_true]
    refine iff_of_true ?_ (.inl hsome)
    split
    · exact ⟨_, rfl⟩
    · split <;> exact ⟨_, rfl⟩

end Text

open Text in
/-- The decimal digits of a number are read as a memory size of as many cells. -/
theorem Settings.readMemorySize_repr {n : Nat} (h : 0 < n) (hn : Short n) :
    readMemorySize n.repr = .ok n := by
  have hdigits (c : Char) (hc : c ∈ Nat.toDigits 10 n) : c.isDigit = true :=
    Nat.isDigit_of_mem_toDigits (by decide) (by decide) hc
  have hall (c : Char) (hc : c ∈ Nat.toDigits 10 n) : isDigit c = true :=
    isDigit_of_isDigit (hdigits c hc)
  have htake : (Nat.toDigits 10 n).takeWhile isDigit = Nat.toDigits 10 n :=
    List.takeWhile_eq_self_iff.2 hall
  have hdrop : (Nat.toDigits 10 n).dropWhile isDigit = [] := List.dropWhile_eq_nil_iff.2 hall
  have htrim : trim isBlank (Nat.toDigits 10 n) = Nat.toDigits 10 n :=
    trim_of_forall fun c hc => isBlank_of_isDigit (hdigits c hc)
  have hread := readNatural_toDigits (String.ofList (Nat.toDigits 10 n)) hn
  have hunit : unitSize? (String.ofList []) = some 1 := by decide
  simp only [readMemorySize, Nat.toList_repr, htrim, htake, hdrop, Nat.toDigits_ne_nil, if_false,
    hunit, hread, Nat.mul_one, Nat.ne_of_gt h]

/-- A number is read back as a memory size from the text that it is written as. -/
theorem Settings.readMemorySize_toString {n : Int} (h : 0 < n) (hn : Text.Short n) :
    readMemorySize (toString n) = .ok n.toNat := by
  obtain ⟨k, rfl⟩ := Int.eq_ofNat_of_zero_le (Int.le_of_lt h)
  exact readMemorySize_repr (Int.natCast_pos.1 h) hn

end TapeFold
