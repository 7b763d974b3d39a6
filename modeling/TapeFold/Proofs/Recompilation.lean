import TapeFold.Proofs.Marking
import TapeFold.Proofs.Compaction

/-!
# The text that a program keeps

The source fields of a compiled program spell out the symbols that it was compiled from, but for
stretches that fold away (`Symbol.Sheds`). These leave no trace, and two stretches always have a symbol
between them that is not folded, so the program compiled from the sources is the same
(`Program.compile_source`).
-/

namespace TapeFold

/-! ### Idle stretches -/

/-- What is left of a stretch: nothing if it is idle, and all of it otherwise. -/
inductive Act.Sheds (u : List Act) : List Act → Prop
  | kept (h : ¬ Idle u) : Sheds u u
  | dropped (h : Idle u) : Sheds u []

/-- What is left of symbols without their idle stretches. A stretch goes from one symbol that is not
folded to the next. -/
inductive Symbol.Sheds : List Symbol → List Symbol → Prop
  | acts {u v : List Act} (h : Act.Sheds u v) : Sheds (u.map .act) (v.map .act)
  | snoc {w t : List Symbol} {s : Symbol} {u v : List Act} (h : Sheds w t) (hs : s.isAct = false)
      (hu : Act.Sheds u v) : Sheds (w ++ s :: u.map .act) (t ++ s :: v.map .act)

/-- The sources of instructions, one after the other. -/
def sourceOf (code : Array Instruction) : String :=
  String.join (code.toList.map (·.source))

def Program.source (p : Program) : String := sourceOf p.code

section
variable {u v : List Act} {w t : List Symbol} {s : Symbol}

theorem Act.exists_sheds (u : List Act) : ∃ v, Sheds u v := by
  by_cases h : Idle u
  · exact ⟨[], .dropped h⟩
  · exact ⟨u, .kept h⟩

theorem Symbol.exists_sheds (w : List Symbol) : ∃ t, Sheds w t := by
  -- the acts after the last symbol that is not folded are collected in `u`
  have hacts : ∀ u : List Act, ∃ t, Sheds (w ++ u.map .act) t := by
    induction w using List.reverseRecOn with
    | nil =>
      intro u
      obtain ⟨v, hv⟩ := Act.exists_sheds u
      exact ⟨_, .acts hv⟩
    | append_singleton w s ih =>
      intro u
      rw [List.append_assoc]
      by_cases hs : s.isAct = false
      · obtain ⟨t, ht⟩ := ih []
        obtain ⟨v, hv⟩ := Act.exists_sheds u
        rw [List.map_nil, List.append_nil] at ht
        exact ⟨_, .snoc ht hs hv⟩
      · obtain ⟨a, rfl⟩ : ∃ a, s = .act a := by cases s <;> simp_all [Symbol.isAct]
        exact ih (a :: u)
  obtain ⟨t, ht⟩ := hacts []
  rw [List.map_nil, List.append_nil] at ht
  exact ⟨t, ht⟩

/-! ### Texts -/

theorem Symbol.toChar_ne_sentinel (s : Symbol) : s.toChar ≠ sentinel := by
  cases s with
  | act a => cases a <;> decide
  | _ => decide

/-- The symbols of a text that holds nothing else. -/
theorem Symbol.ofText_toText (w : List Symbol) : ofText (toText w) = w := by
  rw [ofText, toText, String.toList_ofList]
  induction w with
  | nil => rfl
  | cons s w ih =>
    have hs := toChar_ne_sentinel s
    rw [List.map_cons, List.takeWhile_cons_of_pos (by simp [hs]), List.filterMap_cons,
      ofChar?_toChar, ih]

theorem Symbol.toText_append (w t : List Symbol) : toText (w ++ t) = toText w ++ toText t := by
  rw [toText, List.map_append, String.ofList_append]
  rfl

theorem sourceOf_push (code : Array Instruction) (i : Instruction) :
    sourceOf (code.push i) = sourceOf code ++ i.source := by
  simp [sourceOf]

theorem sourceOf_map {f : Instruction → Instruction} (hf : ∀ i, (f i).source = i.source)
    (code : Array Instruction) : sourceOf (code.map f) = sourceOf code := by
  simp [sourceOf, Function.comp_def, hf]

theorem Symbol.source_bare (hs : s.isAct = false) : s.bare.source = toText [s] := by
  cases s with
  | act a => cases hs
  | _ => rfl

/-! ### Sources of code without its links -/

theorem Outline.sourceOf_acts (hv : (of w).stretch = none) (hu : Act.Sheds u v) :
    sourceOf (bare (w ++ u.map .act)) = sourceOf (bare w) ++ Symbol.toText (v.map .act) := by
  rw [bare_acts hv]
  cases hu with
  | kept h =>
    match hb : (Fold.ofActs u).build with
    | none => exact absurd (Fold.build_ofActs_eq_none_iff.1 hb) h
    | some r => exact (sourceOf_push _ r).trans (by rw [Fold.source_build hb])
  | dropped h =>
    rw [Fold.build_ofActs_eq_none_iff.2 h]
    exact String.append_empty.symm

/-- The sources of code are the symbols without the idle stretches. -/
theorem Outline.sourceOf_bare (h : Symbol.Sheds w t) : sourceOf (bare w) = Symbol.toText t := by
  induction h with
  | @acts u v hu =>
    have hacts := sourceOf_acts (w := []) rfl hu
    rw [List.nil_append] at hacts
    exact hacts.trans String.empty_append
  | @snoc w t s u v _ hs hu ih =>
    have hbare : sourceOf (bare (w ++ [s])) = Symbol.toText t ++ Symbol.toText [s] := by
      rw [bare_of_none (stretch_snoc hs), of_snoc hs, sourceOf_push, ih, Symbol.source_bare hs]
    rw [List.append_cons, sourceOf_acts (stretch_snoc hs) hu, hbare, List.append_cons t,
      Symbol.toText_append, Symbol.toText_append]

end

/-! ### Linking what is left -/

namespace Draft

/-- The drafts have the same code and the same open loops, perhaps from other positions. -/
structure Twin (d c : Draft) : Prop where
  code : c.code = d.code
  opened : c.opened.map (·.1) = d.opened.map (·.1)

variable {d d' c : Draft} {u v : List Act} {w t : List Symbol} {s : Symbol} {p k : Nat}

theorem addAll_acts_of_some {f : Fold} (h : d.stretch = some f) (p : Nat) (u : List Act) :
    d.addAll p (u.map .act) = .ok { d with stretch := some (u.foldl Fold.feed f) } := by
  induction u generalizing d f p with
  | nil =>
    rw [List.foldl_nil, ← h]
    rfl
  | cons a u ih =>
    have hd : ({ d with stretch := some (f.feed a) } : Draft).stretch = some (f.feed a) := rfl
    have hadd : d.add p (.act a) = .ok { d with stretch := some (f.feed a) } := by
      rw [add, h]
      rfl
    rw [List.map_cons, addAll, hadd]
    exact ih hd (p + 1)

/-- A stretch that is all there is to fold ends as a run, or leaves nothing. -/
theorem exists_addAll_acts (h : d.stretch = none) (p : Nat) (u : List Act) :
    ∃ d', d.addAll p (u.map .act) = .ok d' ∧ d'.flush =
      match (Fold.ofActs u).build with
      | some r => d.push r
      | none => d := by
  obtain ⟨code, opened, stretch⟩ := d
  obtain rfl : stretch = none := h
  cases u with
  | nil => exact ⟨_, rfl, rfl⟩
  | cons a u => exact ⟨_, addAll_acts_of_some (f := ({} : Fold).feed a) rfl (p + 1) u, rfl⟩

theorem Twin.push (h : Twin d c) (i : Instruction) : Twin (d.push i) (c.push i) :=
  ⟨congrArg (·.push i) h.code, h.opened⟩

/-- Idle stretches may be left out. -/
theorem Twin.acts (h : Twin d c) (hd : d.stretch = none) (hc : c.stretch = none)
    (hu : Act.Sheds u v) (hadd : d.addAll p (u.map .act) = .ok d') (k : Nat) :
    ∃ c', c.addAll k (v.map .act) = .ok c' ∧ Twin d'.flush c'.flush := by
  obtain ⟨d₁, hd₁, hflush⟩ := exists_addAll_acts hd p u
  obtain rfl : d₁ = d' := Except.ok.inj (hd₁.symm.trans hadd)
  obtain ⟨c', hc', hflush'⟩ := exists_addAll_acts hc k v
  refine ⟨c', hc', ?_⟩
  rw [hflush, hflush']
  cases hu with
  | kept _ =>
    cases (Fold.ofActs u).build with
    | none => exact h
    | some r => exact h.push r
  | dropped hidle =>
    rw [Fold.build_ofActs_eq_none_iff.2 hidle]
    exact h

/-- A symbol that is not folded ends the stretch before it. -/
theorem Twin.add (h : Twin d.flush c.flush) (hs : s.isAct = false) (hadd : d.add p s = .ok d')
    (k : Nat) : ∃ c', c.add k s = .ok c' ∧ Twin d' c' ∧ d'.stretch = none ∧ c'.stretch = none := by
  have hd := stretch_flush d
  have hc := stretch_flush c
  cases s with
  | act a => cases hs
  | read =>
    cases hadd
    exact ⟨_, rfl, h.push _, hd, hc⟩
  | write =>
    cases hadd
    exact ⟨_, rfl, h.push _, hd, hc⟩
  | loopOpen =>
    cases hadd
    refine ⟨_, rfl, ⟨?_, ?_⟩, hd, hc⟩
    · exact congrArg (·.push { kind := .loopOpen, source := "[" }) h.code
    · show c.flush.code.size :: _ = d.flush.code.size :: _
      rw [h.code, h.opened]
  | loopClose =>
    simp only [Draft.add] at hadd ⊢
    rw [h.code]
    cases hmatch : matchingOpen? d.flush.code with
    | none =>
      rw [hmatch] at hadd
      cases hadd
    | some opening =>
      rw [hmatch] at hadd
      cases hadd
      have herase (l : List (Nat × Nat)) :
          (l.eraseP (·.1 == opening)).map (·.1) = (l.map (·.1)).eraseP (· == opening) :=
        (List.eraseP_map (p := (· == opening)) (f := Prod.fst) (l := l)).symm
      refine ⟨_, rfl, ⟨rfl, ?_⟩, hd, hc⟩
      exact (herase _).trans ((congrArg _ h.opened).trans (herase _).symm)

/-- What compilation makes of symbols, it makes of them without their idle stretches. -/
theorem Twin.of_sheds (h : Symbol.Sheds w t) (hadd : addAll {} 0 w = .ok d) :
    ∃ c, addAll {} 0 t = .ok c ∧ Twin d.flush c.flush := by
  induction h generalizing d with
  | acts hu => exact Twin.acts ⟨rfl, rfl⟩ rfl rfl hu hadd 0
  | @snoc w t s u v _ hs hu ih =>
    rw [addAll_append] at hadd ⊢
    match hw : addAll {} 0 w with
    | .error e =>
      rw [hw] at hadd
      cases hadd
    | .ok d₁ =>
      obtain ⟨c₁, hc₁, htwin⟩ := ih hw
      rw [hw] at hadd
      rw [hc₁]
      simp only [Except.bind, addAll] at hadd ⊢
      split at hadd
      · rename_i d₂ hs₁
        obtain ⟨c₂, hs₂, htwin₂, hd₂, hc₂⟩ := htwin.add hs hs₁ (0 + t.length)
        rw [hs₂]
        exact htwin₂.acts hd₂ hc₂ hu hadd _
      · cases hadd

end Draft

theorem Program.link_of_sheds {w t : List Symbol} {code : Array Instruction}
    (h : Symbol.Sheds w t) (hl : link w = .ok code) : link t = .ok code := by
  rw [link] at hl ⊢
  match hw : Draft.addAll {} 0 w with
  | .error e =>
    rw [hw] at hl
    cases hl
  | .ok d =>
    obtain ⟨c, hc, htwin⟩ := Draft.Twin.of_sheds h hw
    rw [hw] at hl
    rw [hc]
    simp only [Except.bind, Draft.finish] at hl ⊢
    split at hl
    · rename_i hlast
      cases hl
      have hnil : c.flush.opened.map (·.1) = [] := by
        rw [htwin.opened, List.getLast?_eq_none_iff.1 hlast]
        rfl
      rw [List.map_eq_nil_iff.1 hnil, htwin.code]
      rfl
    · cases hl

/-- Marks do not show in the sources. -/
theorem Program.source_withMarks {w : List Symbol} {pairs : BracketPairs} {code : Array Instruction}
    (h : Linked w pairs code) (linear : Bool) : (withMarks code linear).source = sourceOf code :=
  calc (withMarks code linear).source
    _ = sourceOf ((withMarks code linear).code.map Instruction.unmarked) :=
      (sourceOf_map (f := Instruction.unmarked) (fun _ => rfl) _).symm
    _ = sourceOf code := by rw [map_unmarked_withMarks h linear]

/-- The sources of linked code are its symbols without the idle stretches, to which the same code is
linked. -/
theorem Program.exists_sheds_of_link {w : List Symbol} {code : Array Instruction}
    (h : link w = .ok code) :
    ∃ t, Symbol.Sheds w t ∧ sourceOf code = Symbol.toText t ∧ link t = .ok code := by
  obtain ⟨pairs, -, hlinked⟩ := exists_linked h
  obtain ⟨t, ht⟩ := Symbol.exists_sheds w
  have hsource :=
    calc sourceOf code
      _ = sourceOf (unlinked code) := (sourceOf_map (f := (·.withJump none)) (fun _ => rfl) _).symm
      _ = sourceOf (Outline.bare w) := by rw [hlinked.bare]
      _ = Symbol.toText t := Outline.sourceOf_bare ht
  exact ⟨t, ht, hsource, link_of_sheds ht h⟩

/-- The sources of a compiled program are the symbols of its text without the idle stretches, and what
is compiled from them is the same program. -/
theorem Program.compile_source (text : String) (linear : Bool) (p : Program)
    (h : compile text linear = .ok p) :
    (∃ t, p.source = Symbol.toText t ∧ Symbol.Sheds (Symbol.ofText text) t) ∧
      compile p.source linear = .ok p := by
  obtain ⟨code, hcode, rfl⟩ := exists_link h
  obtain ⟨pairs, -, hlinked⟩ := exists_linked hcode
  obtain ⟨t, ht, hsource, hlink⟩ := exists_sheds_of_link hcode
  rw [source_withMarks hlinked, hsource]
  refine ⟨⟨t, rfl, ht⟩, ?_⟩
  rw [compile, ofSymbols, Symbol.ofText_toText, hlink]
  rfl

/-- The stretch after the bracket folds away, and the last one does not. -/
theorem Program.compile_source_of_cancelling_stretches : ∃ p,
    compile "+[-+.<+->-]" true = .ok p ∧ p.source = "+[.<+->-]" ∧
      compile "+[.<+->-]" true = .ok p := by
  obtain ⟨p, hp⟩ := (exists_compile_iff "+[-+.<+->-]" true).2 (by decide)
  have hsource : (compile "+[-+.<+->-]" true).map source = .ok "+[.<+->-]" := by
    decide +kernel
  rw [hp] at hsource
  have hsource' : p.source = "+[.<+->-]" := Except.ok.inj hsource
  obtain ⟨-, hsame⟩ := compile_source "+[-+.<+->-]" true p hp
  rw [hsource'] at hsame
  exact ⟨p, hp, hsource', hsame⟩

end TapeFold
