import Mathlib.Data.List.Basic
import Mathlib.Data.List.TakeWhile
import TapeFold.Source
import TapeFold.Compile

/-!
# Reading a program from a stream

Reading byte by byte cuts a stream where splitting it as a whole does, and leaves the same input unread
(`Source.readProgram_ofBytes`). What stands after the first `!` of a text is no part of its program
(`Symbol.ofText_latin1_takeWhile`). So all ways to read a stream agree on the place of the cut, and no
byte is lost there (`Source.cut_at_sentinel`).
-/

namespace TapeFold

/-! ### Cutting a list -/

section
variable {α : Type} [BEq α] [LawfulBEq α] {x : α} {xs as : List α}

theorem cut_append (h : x ∉ as) (bs : List α) : (as ++ x :: bs).takeWhile (· != x) = as ∧
    (as ++ x :: bs).dropWhile (· != x) = x :: bs := by
  have hkeep : ∀ y ∈ as, (y != x) = true := fun y hy => bne_iff_ne.2 fun he => h (he ▸ hy)
  rw [List.takeWhile_append_of_pos hkeep, List.dropWhile_append_of_pos hkeep]
  simp

theorem cut_of_not_mem (h : x ∉ xs) :
    xs.takeWhile (· != x) = xs ∧ xs.dropWhile (· != x) = [] := by
  have hkeep : ∀ y ∈ xs, (y != x) = true := fun y hy => bne_iff_ne.2 fun he => h (he ▸ hy)
  exact ⟨List.takeWhile_eq_self_iff.2 hkeep, List.dropWhile_eq_nil_iff.2 hkeep⟩

end

namespace Source

/-! ### Encodings -/

/-- The bytes of a text in Latin-1, unless it has other characters than those. -/
def encodeLatin1? (text : String) : Option (List UInt8) :=
  if text.toList.all (·.toNat < 256) then some (text.toList.map Char.toUInt8) else none

/-- The bytes of a text in UTF-8. -/
def utf8 (text : String) : List UInt8 := text.toUTF8.data.toList

section
variable {c : Char} {cs : List Char} {b : UInt8} {bytes : List UInt8}

theorem toUInt8_ofUInt8 (b : UInt8) : (Char.ofUInt8 b).toUInt8 = b := b.toUInt8_toUInt32

theorem ofUInt8_toUInt8 (h : c.toNat < 256) : Char.ofUInt8 c.toUInt8 = c :=
  Char.ext (UInt32.toNat_inj.1 (Nat.mod_eq_of_lt h))

/-- Only the byte of `!` is that character. -/
theorem ofUInt8_eq_sentinel_iff : Char.ofUInt8 b = sentinel ↔ b = sentinelByte := by
  constructor
  · intro h
    exact UInt8.toNat_inj.1 (congrArg Char.toNat h)
  · rintro rfl
    rfl

theorem sentinel_mem_latin1_iff : sentinel ∈ (latin1 bytes).toList ↔ sentinelByte ∈ bytes := by
  rw [latin1, String.toList_ofList, List.mem_map]
  constructor
  · rintro ⟨b, hb, he⟩
    exact ofUInt8_eq_sentinel_iff.1 he ▸ hb
  · exact fun h => ⟨_, h, rfl⟩

theorem encodeLatin1?_latin1 (bytes : List UInt8) : encodeLatin1? (latin1 bytes) = some bytes := by
  have hall : (latin1 bytes).toList.all (·.toNat < 256) = true := by
    rw [latin1, String.toList_ofList, List.all_map, List.all_eq_true]
    exact fun b _ => decide_eq_true b.toNat_lt
  rw [encodeLatin1?, if_pos hall, latin1, String.toList_ofList, List.map_map]
  exact congrArg some (List.map_id'' toUInt8_ofUInt8 bytes)

theorem utf8_ofList (cs : List Char) :
    utf8 (String.ofList cs) = cs.flatMap String.utf8EncodeChar := by
  rw [utf8, String.toUTF8, String.toByteArray_ofList, List.utf8Encode, List.data_toByteArray]

/-- The bytes of a text in ASCII are its characters. -/
theorem latin1_utf8 (h : ∀ c ∈ cs, c.toNat < 128) :
    latin1 (utf8 (String.ofList cs)) = String.ofList cs := by
  have hbytes : utf8 (String.ofList cs) = cs.map Char.toUInt8 := by
    rw [utf8_ofList, List.map_eq_flatMap]
    refine List.flatMap_congr fun c hc => String.utf8EncodeChar_eq_singleton ?_
    exact Char.utf8Size_eq_one_iff.2 (UInt32.le_iff_toNat_le.2 (Nat.le_of_lt_succ (h c hc)))
  rw [hbytes, latin1, List.map_map]
  refine congrArg String.ofList ((List.map_congr_left fun c hc => ?_).trans (List.map_id cs))
  exact ofUInt8_toUInt8 (Nat.lt_of_lt_of_le (h c hc) (by decide))

end

/-! ### Reading byte by byte -/

theorem read_ofBytes_nil : (Input.ofBytes []).read = .ok none (.ofBytes []) := rfl

theorem read_ofBytes_cons (b : UInt8) (bytes : List UInt8) :
    (Input.ofBytes (b :: bytes)).read = .ok (some b) (.ofBytes bytes) := rfl

theorem readBytes_ofBytes (read : Array UInt8) (bytes : List UInt8) :
    readBytes read (.ofBytes bytes) =
      .ok (read ++ (bytes.takeWhile (· != sentinelByte)).toArray)
        (.ofBytes ((bytes.dropWhile (· != sentinelByte)).drop 1)) := by
  induction bytes generalizing read with
  | nil =>
    rw [readBytes]
    simp only [read_ofBytes_nil]
    rfl
  | cons b bytes ih =>
    rw [readBytes]
    simp only [read_ofBytes_cons]
    by_cases hb : b = sentinelByte
    · rw [if_pos hb]
      simp [hb]
    · rw [if_neg hb, ih]
      simp [hb]

/-- A program is read as the part of the stream before the first `!`, and the part after it is left. -/
theorem readProgram_ofBytes (bytes : List UInt8) :
    readProgram (.ofBytes bytes) = .ok (splitBytes bytes).1 (.ofBytes (splitBytes bytes).2) := by
  rw [readProgram, readBytes_ofBytes]
  simp [splitBytes]

/-! ### Splitting -/

section
variable {bytes : List UInt8} {cs : List Char}

/-- Bytes without a `!` are cut off from what follows the `!` after them. -/
theorem splitBytes_append (h : ∀ b ∈ bytes, b ≠ sentinelByte) (rest : List UInt8) :
    splitBytes (bytes ++ sentinelByte :: rest) = (latin1 bytes, rest) := by
  obtain ⟨hbefore, hafter⟩ := cut_append (fun hm => h _ hm rfl) rest
  rw [splitBytes, hbefore, hafter]
  rfl

theorem splitBytes_of_not_mem (h : sentinelByte ∉ bytes) :
    splitBytes bytes = (latin1 bytes, []) := by
  obtain ⟨hbefore, hafter⟩ := cut_of_not_mem h
  rw [splitBytes, hbefore, hafter]
  rfl

theorem splitText_append (h : sentinel ∉ cs) (rest : List Char) :
    splitText (String.ofList (cs ++ sentinel :: rest)) =
      (String.ofList cs, utf8 (String.ofList rest)) := by
  obtain ⟨hbefore, hafter⟩ := cut_append h rest
  rw [splitText, String.toList_ofList, hbefore, hafter, utf8_ofList]
  rfl

theorem splitText_of_not_mem (h : sentinel ∉ cs) :
    splitText (String.ofList cs) = (String.ofList cs, []) := by
  obtain ⟨hbefore, hafter⟩ := cut_of_not_mem h
  rw [splitText, String.toList_ofList, hbefore, hafter]
  rfl

end

end Source

open Source

/-- The program in a text goes no further than its first `!`. -/
theorem Symbol.ofText_latin1_takeWhile (bytes : List UInt8) :
    ofText (latin1 (bytes.takeWhile (· != sentinelByte))) = ofText (latin1 bytes) := by
  have hcut : (· != sentinel) ∘ Char.ofUInt8 = (· != sentinelByte) := by
    funext b
    rw [Function.comp_apply, Bool.eq_iff_iff, bne_iff_ne, bne_iff_ne, ne_eq, ne_eq,
      ofUInt8_eq_sentinel_iff]
  rw [ofText, ofText, latin1, latin1, String.toList_ofList, String.toList_ofList,
    List.takeWhile_map, List.takeWhile_map, hcut, List.takeWhile_idem]

/-! ### The place of the cut -/

namespace Source

/-- The bytes `d` are a program `p`, a `!` and the input `r`, or a program alone. -/
structure CutAt (d : List UInt8) (p : String) (r : List UInt8) : Prop where
  program : sentinel ∉ p.toList
  whole : ∃ b, encodeLatin1? p = some b ∧
    (sentinelByte ∈ d → b ++ sentinelByte :: r = d) ∧ (sentinelByte ∉ d → b = d ∧ r = [])

/-- The text `t` is a program `p`, a `!` and the input with the bytes `r`, or a program alone. -/
structure TextCutAt (t p : String) (r : List UInt8) : Prop where
  program : sentinel ∉ p.toList
  whole : (sentinel ∈ t.toList → ∃ rest, p ++ "!" ++ rest = t ∧ utf8 rest = r) ∧
    (sentinel ∉ t.toList → p = t ∧ r = [])

theorem cutAt_splitBytes (d : List UInt8) : CutAt d (splitBytes d).1 (splitBytes d).2 := by
  by_cases hs : sentinelByte ∈ d
  · obtain ⟨b, r, rfl, hb⟩ := List.eq_append_cons_of_mem hs
    rw [splitBytes_append (fun _ hm he => hb (he ▸ hm))]
    exact ⟨fun hm => hb (sentinel_mem_latin1_iff.1 hm), b, encodeLatin1?_latin1 b, fun _ => rfl,
      fun hn => absurd hs hn⟩
  · rw [splitBytes_of_not_mem hs]
    exact ⟨fun hm => hs (sentinel_mem_latin1_iff.1 hm), d, encodeLatin1?_latin1 d,
      fun hm => absurd hm hs, fun _ => ⟨rfl, rfl⟩⟩

theorem textCutAt_splitText (t : String) : TextCutAt t (splitText t).1 (splitText t).2 := by
  by_cases hs : sentinel ∈ t.toList
  · obtain ⟨b, r, ht, hb⟩ := List.eq_append_cons_of_mem hs
    have hsplit := splitText_append hb r
    rw [← ht, String.ofList_toList] at hsplit
    rw [hsplit]
    refine ⟨by rwa [String.toList_ofList], fun _ => ⟨String.ofList r, ?_, rfl⟩,
      fun hn => absurd hs hn⟩
    rw [← String.toList_inj, ht]
    simp [sentinel]
  · have hsplit := splitText_of_not_mem hs
    rw [String.ofList_toList] at hsplit
    rw [hsplit]
    exact ⟨hs, fun hm => absurd hm hs, fun _ => ⟨rfl, rfl⟩⟩

/-- A text in ASCII is split as its bytes are. -/
theorem splitText_eq_splitBytes {t : String} (h : ∀ c ∈ t.toList, c.toNat < 128) :
    splitText t = splitBytes (utf8 t) := by
  -- without a `!` among its characters such a text has none among its bytes
  have hbytes {cs : List Char} (hcs : ∀ c ∈ cs, c.toNat < 128) (hs : sentinel ∉ cs) :
      sentinelByte ∉ utf8 (String.ofList cs) := by
    rwa [← sentinel_mem_latin1_iff, latin1_utf8 hcs, String.toList_ofList]
  rw [← String.ofList_toList (s := t)]
  by_cases hs : sentinel ∈ t.toList
  · obtain ⟨b, r, ht, hb⟩ := List.eq_append_cons_of_mem hs
    rw [ht, List.forall_mem_append] at h
    have hwhole : utf8 (String.ofList (b ++ sentinel :: r)) =
        utf8 (String.ofList b) ++ sentinelByte :: utf8 (String.ofList r) := by
      rw [utf8_ofList, utf8_ofList, utf8_ofList, List.flatMap_append, List.flatMap_cons]
      rfl
    rw [ht, splitText_append hb, hwhole, splitBytes_append, latin1_utf8 h.1]
    exact fun _ hm he => hbytes h.1 hb (he ▸ hm)
  · rw [splitText_of_not_mem hs, splitBytes_of_not_mem (hbytes h hs), latin1_utf8 h]

/-- All readers cut a stream at its first `!`. -/
theorem cut_at_sentinel (d : List UInt8) (t : String) :
    (readProgram (.ofBytes d) = .ok (splitBytes d).1 (.ofBytes (splitBytes d).2) ∧
      CutAt d (splitBytes d).1 (splitBytes d).2 ∧
      ∀ linear, Program.compile (latin1 d) linear = Program.compile (splitBytes d).1 linear) ∧
    TextCutAt t (splitText t).1 (splitText t).2 ∧
    ((∀ c ∈ t.toList, c.toNat < 128) → splitText t = splitBytes (utf8 t)) := by
  refine ⟨⟨readProgram_ofBytes d, cutAt_splitBytes d, fun linear => ?_⟩, textCutAt_splitText t,
    splitText_eq_splitBytes⟩
  rw [Program.compile, Program.compile, splitBytes, Symbol.ofText_latin1_takeWhile]

theorem cut_at_first_of_two_sentinels :
    readProgram (.ofBytes [43, 233, 33, 33, 255]) = .ok "+é" (.ofBytes [33, 255]) ∧
      CutAt [43, 233, 33, 33, 255] "+é" [33, 255] ∧ TextCutAt "+!é!" "+" [195, 169, 33] ∧
      (∀ c ∈ "+!.!".toList, c.toNat < 128) ∧ splitBytes (utf8 "+!.!") = ("+", [46, 33]) := by
  have hbytes : splitBytes [43, 233, 33, 33, 255] = ("+é", [33, 255]) := by decide +kernel
  have htext : splitText "+!é!" = ("+", [195, 169, 33]) := by decide +kernel
  have hall : "+!.!".toList.all (·.toNat < 128) = true := by decide
  have hascii : ∀ c ∈ "+!.!".toList, c.toNat < 128 :=
    fun c hc => of_decide_eq_true (List.all_eq_true.1 hall c hc)
  obtain ⟨⟨hread, hcut, -⟩, hcut', -⟩ := cut_at_sentinel [43, 233, 33, 33, 255] "+!é!"
  obtain ⟨-, -, hsame⟩ := cut_at_sentinel [] "+!.!"
  rw [hbytes] at hread hcut
  rw [htext] at hcut'
  refine ⟨hread, hcut, hcut', hascii, (hsame hascii).symm.trans ?_⟩
  decide +kernel

end Source

end TapeFold
