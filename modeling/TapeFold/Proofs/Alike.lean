import TapeFold.Proofs.Recompilation

/-!
# Programs that look alike

Programs look alike if their instructions have the same kinds, their runs the same sources, and if both or
neither have linear loops and notes. That is little of what a listing shows, but compiled programs that look
alike are the same (`Program.Alike.eq`): the sources determine the linked code, and the rest says whether
linear loops have been marked in it.
-/

namespace TapeFold

/-- What two programs with the same listing have in common at first sight. -/
structure Program.Alike (p q : Program) : Prop where
  size : p.code.size = q.code.size
  kind : ∀ {k : Nat} {i j : Instruction}, p.code[k]? = some i → q.code[k]? = some j →
    i.kind = j.kind
  source : ∀ {k : Nat} {i j : Instruction}, p.code[k]? = some i → q.code[k]? = some j →
    i.kind = .run → i.source = j.source
  linear : p.linearLoops = [] ↔ q.linearLoops = []
  notes : p.diagnostics = [] ↔ q.diagnostics = []

namespace Program
variable {text text' : String} {linear linear' : Bool} {p q : Program} {i : Instruction} {k : Nat}
  {c : Char}

theorem linearLoops_eq_nil_iff :
    p.linearLoops = [] ↔
      ∀ (k : Nat) (i : Instruction), p.code[k]? = some i → i.linearFactor = none := by
  rw [linearLoops, indices, List.map_eq_nil_iff, List.filter_eq_nil_iff]
  constructor
  · intro h k i hi
    rw [← Array.getElem?_toList] at hi
    exact Option.not_isSome_iff_eq_none.1 (h (i, k) (List.mk_mem_zipIdx_iff_getElem?.2 hi))
  · rintro h ⟨i, k⟩ hmem
    have hi := List.mk_mem_zipIdx_iff_getElem?.1 hmem
    rw [Array.getElem?_toList] at hi
    exact Option.not_isSome_iff_eq_none.2 (h k i hi)

/-- The source of an instruction that is no run is the symbol of its kind. -/
theorem source_of_kind (h : compile text linear = .ok p) (hi : p.code[k]? = some i)
    (hk : i.kind ≠ .run) : i.source = i.kind.text := by
  obtain ⟨code, hcode, rfl⟩ := exists_link h
  obtain ⟨pairs, -, hlinked⟩ := exists_linked hcode
  have hunmarked := congrArg (·[k]?) (map_unmarked_withMarks hlinked linear)
  simp only [Array.getElem?_map, hi, Option.map_some] at hunmarked
  obtain ⟨n, s, -, -, hs⟩ := hlinked.exists_symbol hunmarked.symm hk
  have hkind := congrArg Instruction.kind hs
  have hsource := congrArg Instruction.source hs
  change i.kind = s.bare.kind at hkind
  change i.source = s.bare.source at hsource
  rw [hsource, hkind]
  cases s with
  | act a => exact absurd hkind hk
  | _ => rfl

/-- A source holds nothing but symbols. -/
theorem exists_toChar_of_mem_source (h : compile text linear = .ok p) (hi : p.code[k]? = some i)
    (hc : c ∈ i.source.toList) : ∃ s : Symbol, s.toChar = c := by
  have hmem : c ∈ p.source.toList := by
    rw [source, sourceOf, String.toList_join, List.mem_flatMap]
    exact ⟨i.source, List.mem_map_of_mem (Array.mem_toList_iff.2 (Array.mem_of_getElem? hi)), hc⟩
  obtain ⟨code, hcode, rfl⟩ := exists_link h
  obtain ⟨pairs, -, hlinked⟩ := exists_linked hcode
  obtain ⟨t, -, ht, -⟩ := exists_sheds_of_link hcode
  rw [source_withMarks hlinked, ht, Symbol.toText, String.toList_ofList] at hmem
  obtain ⟨s, -, hs⟩ := List.mem_map.1 hmem
  exact ⟨s, hs⟩

/-- The sources of linked code determine it. -/
theorem code_eq_of_sourceOf_eq {w w' : List Symbol} {code code' : Array Instruction}
    (h : link w = .ok code) (h' : link w' = .ok code') (hs : sourceOf code = sourceOf code') :
    code = code' := by
  obtain ⟨t, -, ht, hlink⟩ := exists_sheds_of_link h
  obtain ⟨t', -, ht', hlink'⟩ := exists_sheds_of_link h'
  have htext := congrArg Symbol.ofText (ht.symm.trans (hs.trans ht'))
  rw [Symbol.ofText_toText, Symbol.ofText_toText] at htext
  exact Except.ok.inj (hlink.symm.trans (htext ▸ hlink'))

theorem Alike.source_eq (h : Alike p q) (hp : compile text linear = .ok p)
    (hq : compile text' linear' = .ok q) : p.source = q.source := by
  refine congrArg String.join (List.ext_getElem? fun k => ?_)
  rw [List.getElem?_map, List.getElem?_map, Array.getElem?_toList, Array.getElem?_toList]
  cases hi : p.code[k]? with
  | none =>
    have hj : q.code[k]? = none := by
      rw [Array.getElem?_eq_none_iff] at hi ⊢
      exact h.size ▸ hi
    rw [hj]
  | some i =>
    obtain ⟨j, hj⟩ : ∃ j, q.code[k]? = some j := by
      have hk := (Array.getElem?_eq_some_iff.1 hi).1
      exact ⟨_, Array.getElem?_eq_getElem (h.size ▸ hk)⟩
    have hkind := h.kind hi hj
    rw [hj]
    by_cases hrun : i.kind = .run
    · exact congrArg some (h.source hi hj hrun)
    · refine congrArg some ?_
      show i.source = j.source
      rw [source_of_kind hp hi hrun, source_of_kind hq hj (hkind ▸ hrun), hkind]

/-- A compiled program without linear loops and without notes is the one that is compiled without
marking linear loops. -/
theorem withMarks_eq {w : List Symbol} {pairs : BracketPairs} {code : Array Instruction}
    (hc : Linked w pairs code) (hlinear : (withMarks code true).linearLoops = [])
    (hnotes : (withMarks code true).diagnostics = []) :
    withMarks code true = withMarks code false := by
  have hcode : (withMarks code true).code = (withMarks code false).code := by
    rw [← map_withFactor_withMarks hc]
    refine Array.ext_getElem? fun k => ?_
    rw [Array.getElem?_map]
    match hi : (withMarks code true).code[k]? with
    | none => rfl
    | some i =>
      have hnone := linearLoops_eq_nil_iff.1 hlinear k i hi
      refine congrArg some ?_
      show i = { i with linearFactor := none }
      rw [← hnone]
  generalize withMarks code true = p at hcode hnotes
  obtain ⟨code', diagnostics⟩ := p
  obtain rfl : code' = (withMarks code false).code := hcode
  obtain rfl : diagnostics = [] := hnotes
  rfl

theorem linearLoops_withMarks_false {w : List Symbol} {pairs : BracketPairs}
    {code : Array Instruction} (hc : Linked w pairs code) :
    (withMarks code false).linearLoops = [] :=
  linearLoops_eq_nil_iff.2 fun _ _ => linearFactor_markScans hc

/-- Compiled programs that are alike are the same. -/
theorem Alike.eq (h : Alike p q) (hp : compile text linear = .ok p)
    (hq : compile text' linear' = .ok q) : p = q := by
  have hsource := h.source_eq hp hq
  obtain ⟨code, hcode, rfl⟩ := exists_link hp
  obtain ⟨code', hcode', rfl⟩ := exists_link hq
  obtain ⟨pairs, -, hlinked⟩ := exists_linked hcode
  obtain ⟨pairs', -, hlinked'⟩ := exists_linked hcode'
  rw [source_withMarks hlinked, source_withMarks hlinked'] at hsource
  obtain rfl := code_eq_of_sourceOf_eq hcode hcode' hsource
  have hnone := linearLoops_withMarks_false hlinked
  cases linear with
  | false =>
    cases linear' with
    | false => rfl
    | true => exact (withMarks_eq hlinked (h.linear.1 hnone) (h.notes.1 rfl)).symm
  | true =>
    cases linear' with
    | false => exact withMarks_eq hlinked (h.linear.2 hnone) (h.notes.2 rfl)
    | true => rfl

/-- Programs whose instructions are shown alike. -/
theorem Alike.of_mapIdx {β : Type} {f : Nat → Instruction → β}
    (h : p.code.toList.mapIdx f = q.code.toList.mapIdx f)
    (hf : ∀ k i j, p.code[k]? = some i → q.code[k]? = some j → f k i = f k j →
      i.kind = j.kind ∧ (i.kind = .run → i.source = j.source))
    (hlinear : p.linearLoops = [] ↔ q.linearLoops = [])
    (hnotes : p.diagnostics = [] ↔ q.diagnostics = []) : Alike p q := by
  have hshown {k : Nat} {i j : Instruction} (hi : p.code[k]? = some i) (hj : q.code[k]? = some j) :
      f k i = f k j := by
    have hk := congrArg (·[k]?) h
    simpa [List.getElem?_mapIdx, hi, hj] using hk
  refine ⟨?_, fun hi hj => (hf _ _ _ hi hj (hshown hi hj)).1,
    fun hi hj => (hf _ _ _ hi hj (hshown hi hj)).2, hlinear, hnotes⟩
  have hlength := congrArg List.length h
  simpa using hlength

end Program

end TapeFold
