import TapeFold.Proofs.Relocation

/-!
# Programs put together

Marks look no further than the loop that they stand on, so code that stands within other code is marked
as it is on its own (`Embeds.withMarks`). With the links this makes compilation compositional: a text
after another one, or between two brackets, becomes the program that it is on its own, moved to its
place (`Program.compile_compositional`).
-/

namespace TapeFold

/-- The code `whole` holds the code from its place `n` on. -/
def Embeds (n : Nat) (code whole : Array Instruction) : Prop :=
  ∀ k, k < code.size → whole[n + k]? = code[k]?.map (·.relocated n)

/-- No loop that opens in the code closes outside of it. -/
def ClosesWithin (code : Array Instruction) : Prop :=
  ∀ (k : Nat) (i : Instruction), code[k]? = some i → i.kind = .loopOpen →
    ∃ t : Nat, i.jumpTarget = some (t : Int) ∧ t < code.size

section
variable {code code' whole whole' : Array Instruction} {n : Nat} {a b : Array Instruction}

theorem Instruction.relocated_zero (i : Instruction) : i.relocated 0 = i := by
  have htarget : i.jumpTarget.map (· + ((0 : Nat) : Int)) = i.jumpTarget := by
    cases i.jumpTarget <;> simp
  rw [relocated, htarget]
  rfl

theorem Diagnostic.relocated_zero (d : Diagnostic) : d.relocated 0 = d := rfl

theorem embeds_append_left (a b : Array Instruction) : Embeds 0 a (a ++ b) := by
  intro k hk
  rw [Nat.zero_add, Array.getElem?_append_left hk]
  cases a[k]? with
  | none => rfl
  | some i => exact congrArg some i.relocated_zero.symm

theorem embeds_append_right (a b : Array Instruction) : Embeds a.size b (a ++ relocate a.size b) := by
  intro k _
  rw [Array.getElem?_append_right (Nat.le_add_right _ _), Nat.add_sub_cancel_left, getElem?_relocate]

theorem embeds_bracketed (opening : Instruction) (code : Array Instruction) :
    Embeds 1 code (bracketed opening code) := by
  intro k hk
  rw [bracketed, Array.getElem?_push, if_neg (by simp; omega), Array.getElem?_append_right (by simp)]
  simp [getElem?_relocate]

theorem Linked.closesWithin {w : List Symbol} {pairs : BracketPairs} (h : Linked w pairs code) :
    ClosesWithin code := by
  intro k i hi hk
  obtain ⟨t, c, ht, hc, -⟩ := h.exists_close hi hk
  exact ⟨t, ht, (Array.getElem?_eq_some_iff.1 hc).1⟩

theorem ClosesWithin.of_remarked (h : ClosesWithin code) (hc : Remarked code code') :
    ClosesWithin code' := by
  intro k i hi hk
  obtain ⟨i', hi', hu⟩ := exists_of_unmarked_eq hc.unmarked.symm hi
  obtain ⟨t, ht, hlt⟩ := h k i' hi' ((Instruction.kind_eq_of_unmarked hu).trans hk)
  exact ⟨t, (Instruction.jumpTarget_eq_of_unmarked hu).symm.trans ht, by rwa [hc.size_eq]⟩

end

/-! ### Marks on embedded code -/

namespace Program

variable {p P : Program} {n k : Nat}

section
variable (h : Embeds n p.code P.code) (hp : ClosesWithin p.code) (hk : k < p.code.size)
include h hp hk

theorem soleRun?_of_embeds : P.soleRun? (n + k) = (p.soleRun? k).map (·.relocated n) := by
  refine Option.ext fun body => ?_
  rw [soleRun?_eq_some_iff, Option.map_eq_some_iff]
  constructor
  · rintro ⟨loop, hl, hb, hkind, ht, hr⟩
    rw [h k hk] at hl
    obtain ⟨loop, hl', rfl⟩ := Option.map_eq_some_iff.1 hl
    -- the loop closes within the code, and its body stands before that
    obtain ⟨t, ht', hlt⟩ := hp k loop hl' hkind
    have htarget : loop.jumpTarget.map (· + (n : Int)) = some ((n + k + 2 : Nat) : Int) := ht
    rw [ht', Option.map_some, Option.some.injEq] at htarget
    have hk₁ : k + 1 < p.code.size := by omega
    rw [Nat.add_assoc, h (k + 1) hk₁] at hb
    obtain ⟨body, hb', rfl⟩ := Option.map_eq_some_iff.1 hb
    refine ⟨body, soleRun?_eq_some_iff.2 ⟨loop, hl', hb', hkind, ?_, hr⟩, rfl⟩
    rw [ht', Option.some.injEq]
    omega
  · rintro ⟨body, hbody, rfl⟩
    obtain ⟨loop, hl, hb, hkind, ht, hr⟩ := soleRun?_eq_some_iff.1 hbody
    have hk₁ := (Array.getElem?_eq_some_iff.1 hb).1
    refine ⟨loop.relocated n, by rw [h k hk, hl]; rfl, ?_, hkind, ?_, hr⟩
    · rw [Nat.add_assoc, h (k + 1) hk₁, hb]
      rfl
    · show loop.jumpTarget.map _ = _
      rw [ht, Option.map_some, Option.some.injEq]
      omega

theorem scanStepAt?_of_embeds : P.scanStepAt? (n + k) = p.scanStepAt? k := by
  unfold scanStepAt?
  rw [soleRun?_of_embeds h hp hk]
  cases p.soleRun? k <;> rfl

theorem controlDeltaAt?_of_embeds : P.controlDeltaAt? (n + k) = p.controlDeltaAt? k := by
  unfold controlDeltaAt?
  rw [soleRun?_of_embeds h hp hk]
  cases p.soleRun? k <;> rfl

theorem remark_of_embeds (i : Instruction) (pass : Pass) :
    P.remark (n + k) (i.relocated n) pass = (p.remark k i pass).relocated n := by
  cases pass with
  | scan =>
    rw [remark, remark, scanStepAt?_of_embeds h hp hk]
    cases p.scanStepAt? k <;> rfl
  | linear =>
    rw [remark, remark, controlDeltaAt?_of_embeds h hp hk]
    cases p.controlDeltaAt? k with
    | none => rfl
    | some delta =>
      simp only
      split <;> rfl

theorem noteAt?_of_embeds : P.noteAt? (n + k) = (p.noteAt? k).map (·.relocated n) := by
  refine Option.ext fun d => ?_
  rw [noteAt?_eq_some_iff, Option.map_eq_some_iff, controlDeltaAt?_of_embeds h hp hk]
  constructor
  · rintro ⟨hd, hdelta, hle⟩
    refine ⟨⟨k, d.controlDelta⟩, noteAt?_eq_some_iff.2 ⟨rfl, hdelta, hle⟩, ?_⟩
    rw [Diagnostic.relocated, Nat.add_comm, ← hd]
  · rintro ⟨d, hd, rfl⟩
    obtain ⟨rfl, hdelta, hle⟩ := noteAt?_eq_some_iff.1 hd
    exact ⟨Nat.add_comm _ _, hdelta, hle⟩

end

end Program

section
open Program
variable {p P : Program} {n : Nat} {code whole : Array Instruction}

namespace Embeds

theorem marked (h : Embeds n p.code P.code) (hp : ClosesWithin p.code) (pass : Pass) :
    Embeds n (p.marked pass).code (P.marked pass).code := by
  intro k hk
  rw [(remarked_marked p pass).size_eq] at hk
  rw [getElem?_marked, getElem?_marked, h k hk, Option.map_map, Option.map_map]
  exact congrArg (Option.map · _) (funext fun i => remark_of_embeds h hp hk i pass)

theorem withMarks (h : Embeds n code whole) (hc : ClosesWithin code) (linear : Bool) :
    Embeds n (withMarks code linear).code (withMarks whole linear).code := by
  have hscans := Embeds.marked (p := { code }) (P := { code := whole }) h hc .scan
  cases linear with
  | false => exact hscans
  | true => exact hscans.marked (hc.of_remarked (remarked_markScans { code })) .linear

theorem filterMap_noteAt? (h : Embeds n p.code P.code) (hp : ClosesWithin p.code) :
    ((List.range p.code.size).map (n + ·)).filterMap P.noteAt? =
      p.notes.map (·.relocated n) := by
  rw [List.filterMap_map, notes, List.map_filterMap]
  exact List.filterMap_congr fun k hk => noteAt?_of_embeds h hp (List.mem_range.1 hk)

end Embeds

end

/-! ### Marks on programs put together -/

section
variable {a b code whole : Array Instruction} {opening : Instruction}

theorem eq_append_of_embeds (ha : Embeds 0 a whole) (hb : Embeds a.size b whole)
    (hsize : whole.size = a.size + b.size) : whole = a ++ relocate a.size b := by
  refine Array.ext_getElem? fun k => ?_
  rcases Nat.lt_or_ge k a.size with hk | hk
  · rw [← Nat.zero_add k]
    exact (ha k hk).trans (embeds_append_left a _ k hk).symm
  · obtain ⟨j, rfl⟩ := Nat.exists_eq_add_of_le hk
    rcases Nat.lt_or_ge j b.size with hj | hj
    · exact (hb j hj).trans (embeds_append_right a b j hj).symm
    · rw [Array.getElem?_eq_none (by omega), Array.getElem?_eq_none (by simp; omega)]

theorem size_bracketed (opening : Instruction) (code : Array Instruction) :
    (bracketed opening code).size = 1 + code.size + 1 := by
  rw [bracketed, Array.size_push, Array.size_append, size_relocate]
  rfl

theorem getElem?_bracketed_zero (opening : Instruction) (code : Array Instruction) :
    (bracketed opening code)[0]? = some opening := by
  rw [bracketed, Array.getElem?_push, if_neg (by simp; omega), Array.getElem?_append_left (by simp)]
  rfl

theorem getElem?_bracketed_last (opening : Instruction) (code : Array Instruction) :
    (bracketed opening code)[1 + code.size]? =
      some { kind := .loopClose, jumpTarget := some 0, source := "]" } := by
  have hsize : (#[opening] ++ relocate 1 code).size = 1 + code.size := by simp
  rw [bracketed, ← hsize, Array.getElem?_push_size]

theorem eq_bracketed_of_embeds (hcode : Embeds 1 code whole)
    (hsize : whole.size = 1 + code.size + 1) (hopen : whole[0]? = some opening)
    (hclose : whole[1 + code.size]? =
      some { kind := .loopClose, jumpTarget := some 0, source := "]" }) :
    whole = bracketed opening code := by
  refine Array.ext_getElem? fun k => ?_
  cases k with
  | zero => exact hopen.trans (getElem?_bracketed_zero opening code).symm
  | succ k =>
    rw [Nat.add_comm k 1]
    rcases Nat.lt_trichotomy k code.size with hk | rfl | hk
    · exact (hcode k hk).trans (embeds_bracketed opening code k hk).symm
    · exact hclose.trans (getElem?_bracketed_last opening code).symm
    · rw [Array.getElem?_eq_none (by omega),
        Array.getElem?_eq_none (by rw [size_bracketed]; omega)]

end

namespace Program

variable {a b code : Array Instruction} {p : Program} {k : Nat} {i : Instruction}

theorem noteAt?_of_kind (hi : p.code[k]? = some i) (hk : i.kind ≠ .loopOpen) :
    p.noteAt? k = none := by
  refine Option.eq_none_iff_forall_ne_some.2 fun d hd => ?_
  obtain ⟨-, hdelta, -⟩ := noteAt?_eq_some_iff.1 hd
  obtain ⟨body, hb, -⟩ := controlDeltaAt?_eq_some_iff.1 hdelta
  exact hk (kind_of_soleRun? hb hi)

theorem diagnostics_withMarks (code : Array Instruction) :
    (withMarks code true).diagnostics = (markScans { code }).notes := rfl

theorem size_code_withMarks (code : Array Instruction) (linear : Bool) :
    (withMarks code linear).code.size = code.size := (remarked_withMarks code linear).size_eq

/-- The notes on code that stands within other code. -/
theorem filterMap_noteAt?_markScans {n : Nat} {whole : Array Instruction} (h : Embeds n code whole)
    (hc : ClosesWithin code) :
    ((List.range code.size).map (n + ·)).filterMap (markScans { code := whole }).noteAt? =
      (withMarks code true).diagnostics.map (·.relocated n) := by
  have hscans := Embeds.marked (p := { code }) (P := { code := whole }) h hc .scan
  have hmarked := remarked_marked { code } .scan
  have hnotes := hscans.filterMap_noteAt? (hc.of_remarked hmarked)
  rw [hmarked.size_eq] at hnotes
  exact hnotes

theorem withMarks_append (ha : ClosesWithin a) (hb : ClosesWithin b) (linear : Bool) :
    withMarks (a ++ relocate a.size b) linear = (withMarks a linear).append (withMarks b linear) := by
  have hleft := embeds_append_left a (relocate a.size b)
  have hright := embeds_append_right a b
  have hcode : (withMarks (a ++ relocate a.size b) linear).code = (withMarks a linear).code ++
      relocate (withMarks a linear).code.size (withMarks b linear).code := by
    refine eq_append_of_embeds (hleft.withMarks ha linear) ?_ ?_
    · rw [size_code_withMarks]
      exact hright.withMarks hb linear
    · simp only [size_code_withMarks, Array.size_append, size_relocate]
  have hnotes : (withMarks (a ++ relocate a.size b) linear).diagnostics =
      (withMarks a linear).diagnostics ++
        (withMarks b linear).diagnostics.map (·.relocated (withMarks a linear).code.size) := by
    rw [size_code_withMarks]
    cases linear with
    | false => rfl
    | true =>
      have hl := filterMap_noteAt?_markScans hleft ha
      have hr := filterMap_noteAt?_markScans hright hb
      simp only [Nat.zero_add, List.map_id', Diagnostic.relocated_zero] at hl
      rw [diagnostics_withMarks, notes, (remarked_markScans _).size_eq, Array.size_append,
        size_relocate, List.range_add, List.filterMap_append, hl, hr]
  exact congrArg₂ Program.mk hcode hnotes

theorem withMarks_bracketed (hc : ClosesWithin code) (close : Nat) (linear : Bool) :
    ∃ opening remarks, withMarks (bracketed (openingTo close) code) linear =
        { code := bracketed opening (withMarks code linear).code
          diagnostics := remarks ++ (withMarks code linear).diagnostics.map (·.relocated 1) } ∧
      opening.unmarked = openingTo close ∧ remarks.length ≤ 1 ∧ ∀ d ∈ remarks, d.index = 0 := by
  have hbody := embeds_bracketed (openingTo close) code
  have hlast := getElem?_bracketed_last (openingTo close) code
  have hmarked := remarked_withMarks (bracketed (openingTo close) code) linear
  obtain ⟨opening, hopen, hu⟩ :=
    exists_of_unmarked_eq hmarked.unmarked (getElem?_bracketed_zero (openingTo close) code)
  have hcode : (withMarks (bracketed (openingTo close) code) linear).code =
      bracketed opening (withMarks code linear).code := by
    refine eq_bracketed_of_embeds (hbody.withMarks hc linear) ?_ hopen ?_
    · rw [size_code_withMarks, size_code_withMarks, size_bracketed]
    · rw [size_code_withMarks]
      exact (hmarked.others _ _ (by decide)).2 hlast
  cases linear with
  | false => exact ⟨opening, [], congrArg₂ Program.mk hcode rfl, hu, Nat.zero_le _, nofun⟩
  | true =>
    let whole := markScans { code := bracketed (openingTo close) code }
    have hscans := remarked_markScans { code := bracketed (openingTo close) code }
    -- the notes on the outer loop, on its body, and on the closing bracket, which has none
    have hnotes : (withMarks (bracketed (openingTo close) code) true).diagnostics =
        (List.range 1).filterMap whole.noteAt? ++
          (withMarks code true).diagnostics.map (·.relocated 1) := by
      have hb := filterMap_noteAt?_markScans hbody hc
      have hclose : whole.noteAt? (1 + code.size) = none :=
        noteAt?_of_kind ((hscans.others _ _ (by decide)).2 hlast) (by decide)
      rw [diagnostics_withMarks, notes, hscans.size_eq, size_bracketed, List.range_succ,
        List.range_add, List.filterMap_append, List.filterMap_append, hb,
        List.filterMap_cons_none hclose, List.filterMap_nil, List.append_nil]
    refine ⟨opening, _, congrArg₂ Program.mk hcode hnotes, hu, List.length_filterMap_le _ _, ?_⟩
    intro d hd
    obtain ⟨k, hk, hd⟩ := List.mem_filterMap.1 hd
    rw [(noteAt?_eq_some_iff.1 hd).1]
    exact Nat.lt_one_iff.1 (List.mem_range.1 hk)

end Program

/-! ### Texts put together -/

section
variable {s : String} (hs : sentinel ∉ s.toList)
include hs

theorem Symbol.ofText_append (t : String) : ofText (s ++ t) = ofText s ++ ofText t := by
  have hkeep : ∀ c ∈ s.toList, (c != sentinel) = true := fun c hc => bne_iff_ne.2 fun he => hs (he ▸ hc)
  rw [ofText, ofText, ofText, String.toList_append, List.takeWhile_append_of_pos hkeep,
    List.takeWhile_eq_self_iff.2 hkeep, List.filterMap_append]

theorem Symbol.ofText_bracketed :
    ofText ("[" ++ s ++ "]") = .loopOpen :: (ofText s ++ [.loopClose]) := by
  have hopen : sentinel ∉ ("[" ++ s).toList := by
    rw [String.toList_append]
    exact fun hmem => (List.mem_append.1 hmem).elim (by decide) hs
  rw [ofText_append hopen, ofText_append (s := "[") (by decide)]
  rfl

end

namespace Program

variable {text : String} {code : Array Instruction}

theorem compile_of_link (h : link (Symbol.ofText text) = .ok code) (linear : Bool) :
    compile text linear = .ok (withMarks code linear) := by
  rw [compile, ofSymbols, h]
  rfl

theorem exists_link_of_balanced (hb : Symbol.Balanced (Symbol.ofText text)) :
    ∃ code, link (Symbol.ofText text) = .ok code ∧ ClosesWithin code := by
  obtain ⟨p, hp⟩ := (exists_compile_iff text true).2 hb
  obtain ⟨code, hcode, -⟩ := exists_link hp
  obtain ⟨pairs, -, hlinked⟩ := exists_linked hcode
  exact ⟨code, hcode, hlinked.closesWithin⟩

/-- A text after another one is compiled as it is on its own, and so is a text between two brackets, but
for its place. The outer loop may be marked, and there may be a note on it before those on its body. -/
theorem compile_compositional (linear : Bool) :
    (∀ s t : String, sentinel ∉ s.toList → Symbol.Balanced (Symbol.ofText s) →
      Symbol.Balanced (Symbol.ofText t) → Symbol.Seam (Symbol.ofText s) (Symbol.ofText t) →
      ∃ p q, compile s linear = .ok p ∧ compile t linear = .ok q ∧
        compile (s ++ t) linear = .ok (p.append q)) ∧
    ∀ s : String, sentinel ∉ s.toList → Symbol.Balanced (Symbol.ofText s) →
      ∃ p opening remarks, compile s linear = .ok p ∧
        compile ("[" ++ s ++ "]") linear = .ok
          { code := bracketed opening p.code
            diagnostics := remarks ++ p.diagnostics.map (·.relocated 1) } ∧
        opening.unmarked = openingTo (p.code.size + 1) ∧ remarks.length ≤ 1 ∧
        ∀ d ∈ remarks, d.index = 0 := by
  constructor
  · intro s t hs hbs hbt hseam
    obtain ⟨a, ha, hca⟩ := exists_link_of_balanced hbs
    obtain ⟨b, hb, hcb⟩ := exists_link_of_balanced hbt
    have hlink := link_append ha hb hseam
    rw [← Symbol.ofText_append hs] at hlink
    refine ⟨_, _, compile_of_link ha linear, compile_of_link hb linear, ?_⟩
    rw [compile_of_link hlink, withMarks_append hca hcb]
  · intro s hs hbs
    obtain ⟨code, hcode, hc⟩ := exists_link_of_balanced hbs
    have hlink := link_bracketed hcode
    rw [← Symbol.ofText_bracketed hs] at hlink
    obtain ⟨opening, remarks, hmarks, hopen, hremarks⟩ :=
      withMarks_bracketed hc (code.size + 1) linear
    refine ⟨_, opening, remarks, compile_of_link hcode linear, ?_, ?_, hremarks⟩
    · rw [compile_of_link hlink, hmarks]
    · rw [hopen, size_code_withMarks]

/-- The stretch at the seam folds away. The loop around the first text has a note of its own only if the
body is a run. -/
theorem compile_compositional_at_dropped_stretch :
    (∃ p q, compile "[+]+-" true = .ok p ∧ compile "[>][<+>]" true = .ok q ∧
      compile "[+]+-[>][<+>]" true = .ok (p.append q) ∧ (p.append q).scanLoops = [3] ∧
      (p.append q).diagnostics.map (·.index) = [0, 6]) ∧
    ∃ p opening, compile "<+>" true = .ok p ∧
      compile "[<+>]" true = .ok
        { code := bracketed opening p.code, diagnostics := [{ index := 0, controlDelta := 0 }] } ∧
      opening.unmarked = openingTo 2 := by
  obtain ⟨happend, hbracket⟩ := compile_compositional true
  constructor
  · have hhead : (Symbol.ofText "[>][<+>]").head? = some .loopOpen := by decide
    have hseam : Symbol.Seam (Symbol.ofText "[+]+-") (Symbol.ofText "[>][<+>]") := by
      intro a b _
      rw [hhead]
      nofun
    obtain ⟨p, q, hp, hq, hpq⟩ :=
      happend "[+]+-" "[>][<+>]" (by decide) (by decide) (by decide) hseam
    have hmarks : (compile "[+]+-[>][<+>]" true).map
        (fun p => (p.scanLoops, p.diagnostics.map (·.index))) = .ok ([3], [0, 6]) := by
      decide +kernel
    have hpq' : compile "[+]+-[>][<+>]" true = .ok (p.append q) := hpq
    rw [hpq'] at hmarks
    have hboth := Except.ok.inj hmarks
    exact ⟨p, q, hp, hq, hpq', congrArg Prod.fst hboth, congrArg Prod.snd hboth⟩
  · obtain ⟨p, opening, remarks, hp, hwhole, hopen, -⟩ := hbracket "<+>" (by decide) (by decide)
    have hbody : (compile "<+>" true).map (·.code.size) = .ok 1 := by decide +kernel
    have hnotes : (compile "[<+>]" true).map (·.diagnostics) =
        .ok [{ index := 0, controlDelta := 0 }] := by decide +kernel
    have hwhole' : compile "[<+>]" true = .ok _ := hwhole
    rw [hp] at hbody
    rw [hwhole'] at hnotes
    have hsize : p.code.size = 1 := Except.ok.inj hbody
    rw [hsize] at hopen
    exact ⟨p, opening, hp, hwhole'.trans (congrArg _ (congrArg₂ Program.mk rfl
      (Except.ok.inj hnotes))), hopen⟩

end Program

end TapeFold
