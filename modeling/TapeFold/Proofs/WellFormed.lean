import TapeFold.Proofs.Marking
import TapeFold.Proofs.Nesting

/-!
# The shape of compiled programs

`WellFormed code` says how the instructions of a compiled program fit together: loops are linked to
each other and nest, runs are trimmed and stand apart, and marks stand only where a shortcut applies.
The links are those of the brackets (`Linked.loopAt_of_open`), so that nesting is that of the text.
-/

namespace TapeFold

open Outline (index)

/-- The loop that opens at `i` closes at `j`. -/
structure LoopAt (code : Array Instruction) (i j : Nat) : Prop where
  lt : i < j
  opens : ∃ a, code[i]? = some a ∧ a.kind = .loopOpen ∧ a.jumpTarget = some (j : Int)
  closes : ∃ b, code[j]? = some b ∧ b.kind = .loopClose ∧ b.jumpTarget = some (i : Int)

/-- The row of a run begins and ends with a change, and the run is not idle: it changes a cell, or
moves, or bound-checks a cell left of where it starts. -/
structure Instruction.Compact (r : Instruction) : Prop where
  head_ne : ∀ h : r.deltas ≠ [], r.deltas.head h ≠ 0
  last_ne : ∀ h : r.deltas ≠ [], r.deltas.getLast h ≠ 0
  not_idle : r.deltas ≠ [] ∨ r.netShift ≠ 0 ∨ ∃ m, r.minOffset = some m ∧ m < 0

/-- How the instructions of linked code fit together. -/
structure Shape (code : Array Instruction) : Prop where
  opens : ∀ (i : Nat) (a : Instruction), code[i]? = some a → a.kind = .loopOpen →
    ∃ j : Nat, a.jumpTarget = some (j : Int) ∧ LoopAt code i j
  closes : ∀ (j : Nat) (b : Instruction), code[j]? = some b → b.kind = .loopClose →
    ∃! i : Nat, ∃ a, code[i]? = some a ∧ a.kind = .loopOpen ∧ a.jumpTarget = some (j : Int)
  nested : ∀ i j i' j', LoopAt code i j → LoopAt code i' j' → i < i' → j < i' ∨ j' < j
  unlinked : ∀ (k : Nat) (a : Instruction), code[k]? = some a → a.isLoop = false →
    a.jumpTarget = none
  apart : ∀ (k : Nat) (a b : Instruction), code[k]? = some a → code[k + 1]? = some b →
    a.kind = .run → b.kind ≠ .run
  compact : ∀ (k : Nat) (a : Instruction), code[k]? = some a → a.kind = .run → a.Compact

/-- The shape of a compiled program with its marks. -/
structure WellFormed (code : Array Instruction) : Prop extends Shape code where
  marks : ∀ (i : Nat) (a : Instruction), code[i]? = some a → a.isLinear = true ∨ a.isScan = true →
    a.kind = .loopOpen ∧ a.jumpTarget = some ((i + 2 : Nat) : Int) ∧
      ∃ body, code[i + 1]? = some body ∧ body.kind = .run
  one_mark : ∀ (i : Nat) (a : Instruction), code[i]? = some a →
    ¬ (a.isLinear = true ∧ a.isScan = true)
  factor_pos : ∀ (i : Nat) (a : Instruction) (f : Int), code[i]? = some a → a.linearFactor = some f →
    0 < f

/-! ### Runs -/

theorem Fold.compact_of_build {f : Fold} {r : Instruction} (h : f.build = some r) : r.Compact := by
  rw [build_eq] at h
  by_cases hd : f.trimmed = []
  · rw [if_neg (not_not.2 hd)] at h
    split at h
    · cases h
    · rename_i hidle
      cases h
      refine ⟨fun hne => absurd rfl hne, fun hne => absurd rfl hne, .inr ?_⟩
      by_cases hp : f.position = 0
      · right
        obtain ⟨m, hm, hneg⟩ : ∃ m, f.minOffset = some m ∧ m < 0 := by
          simpa [hp, Option.any_eq_true] using hidle
        exact ⟨m, by simp [Instruction.run, hm], hneg⟩
      · exact .inl hp
  · rw [if_pos hd] at h
    cases h
    refine ⟨fun hne h₀ => head?_trimmed f ?_, fun hne h₀ => getLast?_trimmed f ?_, .inl hd⟩
    · exact (List.head?_eq_some_head hne).trans (congrArg some h₀)
    · exact (List.getLast?_eq_some_getLast hne).trans (congrArg some h₀)

namespace Outline
variable {v : List Symbol} {a b i : Instruction} {k : Nat}

theorem compact_of_run (h : (bare v)[k]? = some i) (hi : i.kind = .run) : i.Compact := by
  refine forall_bare (P := fun i => i.kind = .run → i.Compact) (fun s hs hk => ?_)
    (fun f r hr _ => Fold.compact_of_build hr) h hi
  cases s <;> simp_all [Symbol.bare, Symbol.isAct]

theorem size_flush_le (o : Outline) : o.flush.size ≤ o.code.size + 1 := by
  rcases flush_eq o with h | ⟨-, r, -, -, h⟩
  · rw [h]
    exact Nat.le_succ _
  · rw [h, Array.size_push]

/-- Before the stretch being folded, every run is followed by what ended its stretch. -/
theorem exists_after_run (h : (of v).code[k]? = some i) (hi : i.kind = .run) :
    ∃ b, (of v).code[k + 1]? = some b ∧ b.kind ≠ .run := by
  induction v using List.reverseRecOn generalizing k i with
  | nil => simp at h
  | append_singleton v s ih =>
    by_cases hs : s.isAct = false
    · have hbare : s.bare.kind ≠ .run := by cases s <;> simp_all [Symbol.bare, Symbol.isAct]
      have hext := (extends_flush (of v)).trans (extends_snoc hs)
      rcases Nat.lt_or_ge k (of v).code.size with hk | hk
      · rw [hext.getElem?_eq k hk] at h
        obtain ⟨b, hb, hne⟩ := ih h hi
        exact ⟨b, hext.getElem?_of_some hb, hne⟩
      · -- the run was built when `s` ended its stretch, and `s` stands after it
        rw [of_snoc hs] at h ⊢
        have hlt := (Array.getElem?_eq_some_iff.1 h).1
        have hsize : (bare v).size ≤ (of v).code.size + 1 := size_flush_le (of v)
        rw [Array.size_push] at hlt
        have hend : k ≠ (bare v).size := by
          rintro rfl
          rw [Array.getElem?_push_size] at h
          obtain rfl := Option.some.inj h
          exact hbare hi
        obtain hnext : k + 1 = (bare v).size := by omega
        exact ⟨s.bare, by rw [hnext, Array.getElem?_push_size], hbare⟩
    · obtain ⟨a, rfl⟩ : ∃ a, s = .act a := by cases s <;> simp_all [Symbol.isAct]
      rw [of_act] at h ⊢
      exact ih h hi

/-- No run follows a run: a stretch ends only at a symbol that is not folded. -/
theorem runs_apart (ha : (bare v)[k]? = some a) (hb : (bare v)[k + 1]? = some b)
    (hk : a.kind = .run) : b.kind ≠ .run := by
  have hext := extends_flush (of v)
  rcases Nat.lt_or_ge k (of v).code.size with hlt | hge
  · have ha' : (of v).code[k]? = some a := (hext.getElem?_eq k hlt).symm.trans ha
    obtain ⟨c, hc, hne⟩ := exists_after_run ha' hk
    obtain rfl := Option.some.inj (hb.symm.trans (hext.getElem?_of_some hc))
    exact hne
  · have hlt := (Array.getElem?_eq_some_iff.1 hb).1
    have hsize : (bare v).size ≤ (of v).code.size + 1 := size_flush_le (of v)
    omega

end Outline

/-! ### Only loops jump -/

/-- Only loop instructions have a target. -/
def JumpsAtLoops (code : Array Instruction) : Prop :=
  ∀ (k : Nat) (i : Instruction), code[k]? = some i → i.isLoop = false → i.jumpTarget = none

section
variable {code : Array Instruction} {i : Instruction} {k n c : Nat} {d d' : Draft} {w : List Symbol}
  {s : Symbol}

theorem JumpsAtLoops.push (h : JumpsAtLoops code) (hi : i.isLoop = false → i.jumpTarget = none) :
    JumpsAtLoops (code.push i) := by
  intro k j hj hl
  rw [Array.getElem?_push] at hj
  split at hj
  · cases hj
    exact hi hl
  · exact h k j hj hl

theorem kind_of_openBefore? (h : openBefore? code n c = some k) :
    code[k]?.map Instruction.kind = some .loopOpen := by
  induction n generalizing c with
  | zero => simp [openBefore?] at h
  | succ n ih =>
    unfold openBefore? at h
    split at h
    · exact ih h
    · cases h
      assumption
    · exact ih h
    · exact ih h

theorem JumpsAtLoops.modify {target : Option Int} (h : JumpsAtLoops code)
    (hk : code[k]?.map Instruction.kind = some .loopOpen) :
    JumpsAtLoops (code.modify k (·.withJump target)) := by
  intro j i hi hl
  rw [Array.getElem?_modify] at hi
  split at hi
  · subst j
    obtain ⟨i', hi', rfl⟩ := Option.map_eq_some_iff.1 hi
    rw [hi'] at hk
    have hkind : i'.kind = .loopOpen := Option.some.inj hk
    simp [Instruction.isLoop, Instruction.withJump, hkind] at hl
  · exact h j i hi hl

theorem JumpsAtLoops.flush (h : JumpsAtLoops d.code) : JumpsAtLoops d.flush.code := by
  rcases d.flush_cases with ⟨-, hf⟩ | ⟨i, -, -, hj, hf⟩
  · rw [hf]
    exact h
  · rw [hf]
    exact h.push fun _ => hj

theorem JumpsAtLoops.add (h : JumpsAtLoops d.code) (hd : d.add n s = .ok d') :
    JumpsAtLoops d'.code := by
  cases s with
  | act a =>
    cases hd
    exact h
  | read =>
    cases hd
    exact h.flush.push fun _ => rfl
  | write =>
    cases hd
    exact h.flush.push fun _ => rfl
  | loopOpen =>
    cases hd
    exact h.flush.push fun _ => rfl
  | loopClose =>
    simp only [Draft.add] at hd
    split at hd
    · cases hd
    · rename_i hm
      cases hd
      refine (h.flush.modify (kind_of_openBefore? hm)).push ?_
      simp [Instruction.isLoop]

theorem JumpsAtLoops.addAll (h : JumpsAtLoops d.code) (hd : d.addAll n w = .ok d') :
    JumpsAtLoops d'.code := by
  induction w generalizing d n with
  | nil =>
    cases hd
    exact h
  | cons s w ih =>
    simp only [Draft.addAll] at hd
    split at hd
    · exact ih (h.add ‹_›) hd
    · cases hd

theorem Program.jumpsAtLoops_of_link (h : link w = .ok code) : JumpsAtLoops code := by
  rw [link] at h
  match hd : Draft.addAll {} 0 w with
  | .ok d =>
    have hjumps : JumpsAtLoops d.code :=
      JumpsAtLoops.addAll (fun k i hi => by simp at hi) hd
    rw [hd] at h
    simp only [Except.bind, Draft.finish] at h
    split at h
    · cases h
      exact hjumps.flush
    · cases h
  | .error e =>
    rw [hd] at h
    cases h

end

/-! ### Loops nest as their brackets do -/

section
variable {w : List Symbol} {pairs : BracketPairs} {code code' : Array Instruction}
  {i i' j j' k : Nat} {a b : Instruction}

theorem LoopAt.right_unique (h : LoopAt code i j) (h' : LoopAt code i j') : j = j' := by
  obtain ⟨a, ha, -, hj⟩ := h.opens
  obtain ⟨a', ha', -, hj'⟩ := h'.opens
  obtain rfl := Option.some.inj (ha.symm.trans ha')
  exact Int.ofNat_inj.1 (Option.some.inj (hj.symm.trans hj'))

theorem LoopAt.of_unmarked_eq (h : LoopAt code i j)
    (hc : code'.map Instruction.unmarked = code.map Instruction.unmarked) : LoopAt code' i j := by
  obtain ⟨a, ha, hak, hat⟩ := h.opens
  obtain ⟨b, hb, hbk, hbt⟩ := h.closes
  obtain ⟨a', ha', hau⟩ := exists_of_unmarked_eq hc ha
  obtain ⟨b', hb', hbu⟩ := exists_of_unmarked_eq hc hb
  refine ⟨h.lt, ⟨a', ha', ?_, ?_⟩, ⟨b', hb', ?_, ?_⟩⟩
  · rw [Instruction.kind_eq_of_unmarked hau, hak]
  · rw [Instruction.jumpTarget_eq_of_unmarked hau, hat]
  · rw [Instruction.kind_eq_of_unmarked hbu, hbk]
  · rw [Instruction.jumpTarget_eq_of_unmarked hbu, hbt]

namespace Linked
variable (h : Linked w pairs code) (hn : Symbol.Nesting w w.length pairs [])
include h hn

/-- A loop that opens is that of a pair of brackets. -/
theorem loopAt_of_open (ha : code[i]? = some a) (hk : a.kind = .loopOpen) :
    ∃ n m, Symbol.Closes w n m ∧ index (w.take n) = i ∧
      a.jumpTarget = some (index (w.take m) : Int) ∧ LoopAt code i (index (w.take m)) := by
  obtain ⟨n, m, c, hnm, hp, hi, ht, hc, hck, hct⟩ := h.exists_partner ha hk
  have hcloses := hn.closes_of_lt hp hnm
  refine ⟨n, m, hcloses, hi, ht, ?_, ⟨a, ha, hk, ht⟩, ⟨c, hc, hck, hct⟩⟩
  rw [← hi]
  exact index_take_lt hnm hcloses.opens rfl

theorem exists_closes (hl : LoopAt code i j) :
    ∃ n m, Symbol.Closes w n m ∧ index (w.take n) = i ∧ index (w.take m) = j := by
  obtain ⟨a, ha, hk, -⟩ := hl.opens
  obtain ⟨n, m, hc, hi, -, hl'⟩ := h.loopAt_of_open hn ha hk
  exact ⟨n, m, hc, hi, hl'.right_unique hl⟩

theorem loops_nested (hl : LoopAt code i j) (hl' : LoopAt code i' j') (hlt : i < i') :
    j < i' ∨ j' < j := by
  obtain ⟨n, m, hc, rfl, rfl⟩ := h.exists_closes hn hl
  obtain ⟨n', m', hc', rfl, rfl⟩ := h.exists_closes hn hl'
  have hnn := (index_take_lt_iff hc.opens rfl hc'.opens rfl).1 hlt
  rcases hc.nested hc' hnn with hd | hd
  · exact .inl (index_take_lt hd hc.closes rfl)
  · exact .inr (index_take_lt hd hc'.closes rfl)

theorem shape (hj : JumpsAtLoops code) : Shape code := by
  have hopens (i : Nat) (a : Instruction) (ha : code[i]? = some a) (hk : a.kind = .loopOpen) :
      ∃ j : Nat, a.jumpTarget = some (j : Int) ∧ LoopAt code i j := by
    obtain ⟨n, m, -, -, ht, hl⟩ := h.loopAt_of_open hn ha hk
    exact ⟨_, ht, hl⟩
  refine ⟨hopens, ?_, ?_, hj, ?_, ?_⟩
  · intro j b hb hk
    obtain ⟨i, a, hbt, ha, hak, hat⟩ := h.exists_open hb hk
    refine ⟨i, ⟨a, ha, hak, hat⟩, ?_⟩
    rintro i' ⟨a', ha', hak', hat'⟩
    obtain ⟨j', hj', hl⟩ := hopens i' a' ha' hak'
    obtain rfl := Int.ofNat_inj.1 (Option.some.inj (hat'.symm.trans hj'))
    obtain ⟨b', hb', -, hbt'⟩ := hl.closes
    obtain rfl := Option.some.inj (hb.symm.trans hb')
    exact Int.ofNat_inj.1 (Option.some.inj (hbt'.symm.trans hbt))
  · intro i j i' j' hl hl' hlt
    exact h.loops_nested hn hl hl' hlt
  · intro k a b ha hb hk
    have ha' := h.getElem?_bare k
    have hb' := h.getElem?_bare (k + 1)
    rw [ha] at ha'
    rw [hb] at hb'
    exact Outline.runs_apart (b := b.withJump none) ha' hb' hk
  · intro k a ha hk
    have ha' := h.getElem?_bare k
    rw [ha] at ha'
    have hcompact := Outline.compact_of_run (i := a.withJump none) ha' hk
    exact ⟨hcompact.head_ne, hcompact.last_ne, hcompact.not_idle⟩

end Linked

/-- Marks are no part of the shape. -/
theorem Shape.of_unmarked_eq (h : Shape code)
    (hc : code'.map Instruction.unmarked = code.map Instruction.unmarked) : Shape code' := by
  have hback {k : Nat} {a : Instruction} (ha : code'[k]? = some a) :
      ∃ a', code[k]? = some a' ∧ a'.unmarked = a.unmarked := exists_of_unmarked_eq hc.symm ha
  refine ⟨?_, ?_, ?_, ?_, ?_, ?_⟩
  · intro i a ha hk
    obtain ⟨a', ha', hu⟩ := hback ha
    obtain ⟨j, hj, hl⟩ := h.opens i a' ha' ((Instruction.kind_eq_of_unmarked hu).trans hk)
    exact ⟨j, (Instruction.jumpTarget_eq_of_unmarked hu).symm.trans hj, hl.of_unmarked_eq hc⟩
  · intro j b hb hk
    obtain ⟨b', hb', hu⟩ := hback hb
    obtain ⟨i, ⟨a, ha, hak, hat⟩, hunique⟩ :=
      h.closes j b' hb' ((Instruction.kind_eq_of_unmarked hu).trans hk)
    obtain ⟨a', ha', hau⟩ := exists_of_unmarked_eq hc ha
    refine ⟨i, ⟨a', ha', ?_, ?_⟩, ?_⟩
    · rw [Instruction.kind_eq_of_unmarked hau, hak]
    · rw [Instruction.jumpTarget_eq_of_unmarked hau, hat]
    · rintro i' ⟨c, hc', hck, hct⟩
      obtain ⟨c', hc'', hcu⟩ := hback hc'
      refine hunique i' ⟨c', hc'', ?_, ?_⟩
      · rw [Instruction.kind_eq_of_unmarked hcu, hck]
      · rw [Instruction.jumpTarget_eq_of_unmarked hcu, hct]
  · intro i j i' j' hl hl' hlt
    exact h.nested i j i' j' (hl.of_unmarked_eq hc.symm) (hl'.of_unmarked_eq hc.symm) hlt
  · intro k a ha hl
    obtain ⟨a', ha', hu⟩ := hback ha
    have hkind := Instruction.kind_eq_of_unmarked hu
    rw [← Instruction.jumpTarget_eq_of_unmarked hu]
    exact h.unlinked k a' ha' (by rwa [Instruction.isLoop, hkind])
  · intro k a b ha hb hk
    obtain ⟨a', ha', hau⟩ := hback ha
    obtain ⟨b', hb', hbu⟩ := hback hb
    rw [← Instruction.kind_eq_of_unmarked hbu]
    exact h.apart k a' b' ha' hb' ((Instruction.kind_eq_of_unmarked hau).trans hk)
  · intro k a ha hk
    obtain ⟨a', ha', hu⟩ := hback ha
    obtain ⟨hs, hd, hm, -⟩ := Instruction.effect_eq_of_unmarked hu
    obtain ⟨h₁, h₂, h₃⟩ := h.compact k a' ha' ((Instruction.kind_eq_of_unmarked hu).trans hk)
    simp only [hd, hs, hm] at h₁ h₂ h₃
    exact ⟨h₁, h₂, h₃⟩

theorem Shape.loopAt_of_close (h : Shape code) (hb : code[j]? = some b) (hk : b.kind = .loopClose) :
    ∃ i : Nat, b.jumpTarget = some (i : Int) ∧ LoopAt code i j := by
  obtain ⟨i, ⟨a, ha, hak, hat⟩, -⟩ := h.closes j b hb hk
  obtain ⟨j', hj', hl⟩ := h.opens i a ha hak
  obtain rfl := Int.ofNat_inj.1 (Option.some.inj (hat.symm.trans hj'))
  obtain ⟨b', hb', -, hbt⟩ := hl.closes
  obtain rfl := Option.some.inj (hb.symm.trans hb')
  exact ⟨i, hbt, hl⟩

/-! ### Marks -/

theorem Marked.exists_sole (hm : Marked code) (ha : code[i]? = some a) (hu : ¬ a.Unmarked) :
    ∃ body close, SoleLoop code i a body close := by
  cases hf : a.linearFactor with
  | some f =>
    obtain ⟨-, -, body, close, hsole, -⟩ := hm.linear ha hf
    exact ⟨body, close, hsole⟩
  | none =>
    cases hd : a.scanStep with
    | some d =>
      obtain ⟨-, -, body, close, hsole, -⟩ := hm.scan ha hd
      exact ⟨body, close, hsole⟩
    | none => exact absurd ⟨hf, hd⟩ hu

theorem Shape.wellFormed (h : Shape code) (hm : Marked code) : WellFormed code := by
  refine ⟨h, ?_, ?_, ?_⟩
  · intro i a ha hmark
    obtain ⟨body, close, hsole⟩ := hm.exists_sole ha (by
      rintro ⟨hf, hs⟩
      simp [Instruction.isLinear, Instruction.isScan, hf, hs] at hmark)
    exact ⟨hsole.loop_kind, hsole.loop_target, body, hsole.body_at, hsole.body_kind⟩
  · rintro i a ha ⟨hf, hs⟩
    obtain ⟨f, hf⟩ := Option.isSome_iff_exists.1 hf
    rw [Instruction.isScan, (hm.linear ha hf).1] at hs
    cases hs
  · intro i a f ha hf
    exact (hm.linear ha hf).2.1

end

namespace Program

theorem shape_and_marked_of_compile {text : String} {linear : Bool} {p : Program}
    (h : compile text linear = .ok p) : Shape p.code ∧ Marked p.code := by
  obtain ⟨code, hcode, rfl⟩ := exists_link h
  obtain ⟨pairs, hpairs, hlinked⟩ := exists_linked hcode
  have hshape := hlinked.shape (Symbol.nesting_of_pairBrackets hpairs) (jumpsAtLoops_of_link hcode)
  have hunmarked := map_unmarked_eq hlinked (map_unmarked_withMarks hlinked linear)
  exact ⟨hshape.of_unmarked_eq hunmarked, marked_withMarks hlinked linear⟩

/-- Every compiled program is well formed. -/
theorem wellFormed_compile (text : String) (linear : Bool) (p : Program)
    (h : compile text linear = .ok p) : WellFormed p.code := by
  obtain ⟨hshape, hmarked⟩ := shape_and_marked_of_compile h
  exact hshape.wellFormed hmarked

/-- A scan and a linear loop inside another loop, next to acts that fold away. -/
theorem wellFormed_scan_in_loop : ∃ p, compile "+[>[>]+-<[-]<]" true = .ok p ∧ WellFormed p.code ∧
    p.scanLoops = [3] ∧ p.linearLoops = [7] := by
  obtain ⟨p, hp⟩ := (exists_compile_iff "+[>[>]+-<[-]<]" true).2 (by decide)
  have hmarks : (compile "+[>[>]+-<[-]<]" true).map (fun p => (p.scanLoops, p.linearLoops)) =
      .ok ([3], [7]) := by decide +kernel
  rw [hp] at hmarks
  have hloops := Except.ok.inj hmarks
  exact ⟨p, hp, wellFormed_compile _ _ p hp, congrArg Prod.fst hloops, congrArg Prod.snd hloops⟩

end Program

end TapeFold
