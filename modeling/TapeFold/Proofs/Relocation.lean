import TapeFold.Proofs.Brackets

/-!
# Code moved to another place

A symbol is compiled in the same way wherever it stands, but for the places that its loop is linked
to: a draft on top of another one grows as it does on its own (`Draft.Atop`). So the code of two texts
is the one after the other (`Program.link_append`), and brackets around a text stand around its code
(`Program.link_bracketed`).
-/

namespace TapeFold

/-- The instruction `n` places further on, together with all that it may lead to. -/
def Instruction.relocated (n : Nat) (i : Instruction) : Instruction :=
  i.withJump (i.jumpTarget.map (· + (n : Int)))

/-- The note on a loop `n` places further on. -/
def Diagnostic.relocated (n : Nat) (d : Diagnostic) : Diagnostic := { d with index := d.index + n }

/-- The code `n` places further on. -/
def relocate (n : Nat) (code : Array Instruction) : Array Instruction := code.map (·.relocated n)

/-- One program after the other. -/
def Program.append (p q : Program) : Program where
  code := p.code ++ relocate p.code.size q.code
  diagnostics := p.diagnostics ++ q.diagnostics.map (·.relocated p.code.size)

/-- The text of `v` does not end within a stretch that goes on in `w`. -/
def Symbol.Seam (v w : List Symbol) : Prop :=
  ∀ a b : Act, v.getLast? = some (.act a) → w.head? ≠ some (.act b)

section
variable {code code' : Array Instruction} {i : Instruction} {n k : Nat}

@[simp] theorem size_relocate (n : Nat) (code : Array Instruction) :
    (relocate n code).size = code.size := Array.size_map

theorem getElem?_relocate (n : Nat) (code : Array Instruction) (k : Nat) :
    (relocate n code)[k]? = code[k]?.map (·.relocated n) := Array.getElem?_map

theorem relocate_push (n : Nat) (code : Array Instruction) (i : Instruction) :
    relocate n (code.push i) = (relocate n code).push (i.relocated n) := Array.map_push

theorem Instruction.relocated_of_none (h : i.jumpTarget = none) (n : Nat) : i.relocated n = i := by
  rw [relocated, h, Option.map_none, ← h]
  rfl

/-- A link within the code moves along with it. -/
theorem modify_append_relocate (base code : Array Instruction) (k : Nat) (target : Int) :
    (base ++ relocate base.size code).modify (k + base.size)
        (·.withJump (some (target + base.size))) =
      base ++ relocate base.size (code.modify k (·.withJump (some target))) := by
  refine Array.ext_getElem? fun j => ?_
  rw [Array.getElem?_modify, Array.getElem?_append, Array.getElem?_append]
  rcases Nat.lt_or_ge j base.size with hj | hj
  · rw [if_pos hj, if_pos hj, if_neg (by omega)]
  · rw [if_neg (Nat.not_lt.2 hj), if_neg (Nat.not_lt.2 hj), getElem?_relocate, getElem?_relocate,
      Array.getElem?_modify]
    by_cases hk : k = j - base.size
    · rw [if_pos hk, if_pos (by omega), Option.map_map, Option.map_map]
      rfl
    · rw [if_neg hk, if_neg (by omega)]

theorem modify_zero_append (i : Instruction) (code : Array Instruction) (f : Instruction → Instruction) :
    (#[i] ++ code).modify 0 f = #[f i] ++ code := by
  refine Array.ext_getElem? fun j => ?_
  rw [Array.getElem?_modify, Array.getElem?_append, Array.getElem?_append]
  cases j <;> simp

theorem openLoops_push_loopOpen (code : Array Instruction) :
    openLoops (code.push { kind := .loopOpen, source := "[" }) (code.size + 1) =
      code.size :: openLoops code code.size := by
  have hpush := openLoops_push code { kind := .loopOpen, source := "[" }
  rwa [Array.size_push] at hpush

theorem openLoops_push_of_not_loop (code : Array Instruction) (hi : i.isLoop = false) :
    openLoops (code.push i) (code.size + 1) = openLoops code code.size := by
  have hpush := openLoops_push code i
  rw [Array.size_push] at hpush
  rw [hpush]
  cases hk : i.kind <;> simp_all [Instruction.isLoop]

theorem Instruction.isLoop_of_run (h : i.kind = .run) : i.isLoop = false := by
  rw [isLoop, h]
  rfl

end

/-! ### Drafts on top of each other -/

namespace Draft

/-- The loops that are noted as open are those that the code leaves open. -/
def Consistent (d : Draft) : Prop := d.opened.map (·.1) = openLoops d.code d.code.size

/-- The draft `D` holds the code of `base`, and after it what `d` holds. -/
structure Atop (base d D : Draft) : Prop where
  code : D.code = base.code ++ relocate base.code.size d.code
  loops : openLoops D.code D.code.size =
    (openLoops d.code d.code.size).map (· + base.code.size) ++ openLoops base.code base.code.size
  stretch : D.stretch = d.stretch

variable {base d d' D : Draft} {v w : List Symbol} {s : Symbol} {i : Instruction} {p q k t : Nat}

/-- What becomes of a draft whose innermost open loop is closed. -/
def close (d : Draft) (opening : Nat) : Draft :=
  { d with
    code := (d.code.modify opening (·.withJump (some (d.code.size : Int)))).push
      { kind := .loopClose, jumpTarget := some (opening : Int), source := "]" }
    opened := d.opened.eraseP (·.1 == opening) }

theorem add_loopClose (p : Nat) {opening : Nat} {rest : List Nat}
    (h : openLoops d.flush.code d.flush.code.size = opening :: rest) :
    d.add p .loopClose = .ok (d.flush.close opening) := by
  have hm : matchingOpen? d.flush.code = some opening := by
    rw [matchingOpen?_eq, h]
    rfl
  simp only [add, hm]
  rfl

theorem exists_of_add_loopClose (h : d.add p .loopClose = .ok d') :
    ∃ opening rest, openLoops d.flush.code d.flush.code.size = opening :: rest ∧
      d' = d.flush.close opening := by
  cases hl : openLoops d.flush.code d.flush.code.size with
  | nil =>
    have hm : matchingOpen? d.flush.code = none := by
      rw [matchingOpen?_eq, hl]
      rfl
    simp only [add, hm] at h
    cases h
  | cons opening rest =>
    rw [add_loopClose p hl] at h
    exact ⟨opening, rest, rfl, (Except.ok.inj h).symm⟩

theorem openLoops_close (d : Draft) (opening : Nat) :
    openLoops (d.close opening).code (d.close opening).code.size =
      (openLoops d.code d.code.size).tail := by
  refine (openLoops_push _ _).trans ?_
  simp only
  rw [Array.size_modify, openLoops_modify]

namespace Consistent

theorem push (h : d.Consistent) (hi : i.isLoop = false) : (d.push i).Consistent := by
  rw [Consistent, Draft.push, Array.size_push, openLoops_push_of_not_loop d.code hi]
  exact h

theorem flush (h : d.Consistent) : d.flush.Consistent := by
  rcases d.flush_cases with ⟨-, hf⟩ | ⟨i, -, hi, -, hf⟩
  · rw [hf]
    exact h
  · rw [hf]
    exact h.push (Instruction.isLoop_of_run hi)

theorem add (h : d.Consistent) (ha : d.add p s = .ok d') : d'.Consistent := by
  cases s with
  | act a =>
    cases ha
    exact h
  | read =>
    cases ha
    exact h.flush.push rfl
  | write =>
    cases ha
    exact h.flush.push rfl
  | loopOpen =>
    cases ha
    rw [Consistent, Draft.push, Array.size_push, openLoops_push_loopOpen]
    exact congrArg (d.flush.code.size :: ·) h.flush
  | loopClose =>
    obtain ⟨opening, rest, hl, rfl⟩ := exists_of_add_loopClose ha
    have ho : d.flush.opened.map (·.1) = opening :: rest := h.flush.trans hl
    have herase : (d.flush.opened.eraseP (·.1 == opening)).map (·.1) =
        (d.flush.opened.map (·.1)).eraseP (· == opening) :=
      (List.eraseP_map (p := (· == opening)) (f := Prod.fst) (l := d.flush.opened)).symm
    rw [Consistent, openLoops_close, hl]
    show (d.flush.opened.eraseP _).map _ = rest
    rw [herase, ho, List.eraseP_cons_of_pos (by simp)]

theorem addAll (h : d.Consistent) (ha : d.addAll p w = .ok d') : d'.Consistent := by
  induction w generalizing d p with
  | nil =>
    cases ha
    exact h
  | cons s w ih =>
    simp only [Draft.addAll] at ha
    split at ha
    · exact ih (h.add ‹_›) ha
    · cases ha

/-- A draft is finished just if its code leaves no loop open. -/
theorem finish_eq_ok_iff (h : d.Consistent) {code : Array Instruction} :
    d.finish = .ok code ↔ openLoops d.flush.code d.flush.code.size = [] ∧ d.flush.code = code := by
  have hf : d.flush.opened.map (·.1) = openLoops d.flush.code d.flush.code.size := h.flush
  rw [← hf, List.map_eq_nil_iff, finish]
  cases hlast : d.flush.opened.getLast? with
  | none =>
    rw [and_iff_right (List.getLast?_eq_none_iff.1 hlast)]
    exact ⟨Except.ok.inj, congrArg _⟩
  | some e =>
    constructor
    · intro h
      cases h
    · rintro ⟨hnil, -⟩
      rw [hnil] at hlast
      cases hlast

end Consistent

theorem consistent_empty : ({} : Draft).Consistent := rfl

namespace Atop

theorem empty (base : Draft) (hb : base.stretch = none) : Atop base {} base := by
  refine ⟨?_, rfl, hb⟩
  rw [relocate, Array.map_empty, Array.append_empty]

theorem size (h : Atop base d D) : D.code.size = d.code.size + base.code.size := by
  rw [h.code, Array.size_append, size_relocate, Nat.add_comm]

theorem push (h : Atop base d D) (hi : i.isLoop = false) (hj : i.jumpTarget = none) :
    Atop base (d.push i) (D.push i) := by
  refine ⟨?_, ?_, h.stretch⟩
  · show D.code.push i = base.code ++ relocate _ (d.code.push i)
    rw [relocate_push, Instruction.relocated_of_none hj, Array.append_push, h.code]
  · rw [Draft.push, Draft.push, Array.size_push, Array.size_push, openLoops_push_of_not_loop _ hi,
      openLoops_push_of_not_loop _ hi, h.loops]

theorem flush (h : Atop base d D) : Atop base d.flush D.flush := by
  rcases d.flush_cases with ⟨hr, hf⟩ | ⟨i, hr, hi, hj, hf⟩
  · rw [hf, flush_eq_of_none (by rw [h.stretch, hr])]
    exact ⟨h.code, h.loops, rfl⟩
  · rw [hf, flush_eq_of_some (by rw [h.stretch, hr])]
    have hp := h.push (Instruction.isLoop_of_run hi) hj
    exact ⟨hp.code, hp.loops, rfl⟩

theorem loopOpen (h : Atop base d D) (p q : Nat) :
    Atop base ({ d with opened := (d.code.size, p) :: d.opened }.push
        { kind := .loopOpen, source := "[" })
      ({ D with opened := (D.code.size, q) :: D.opened }.push
        { kind := .loopOpen, source := "[" }) := by
  refine ⟨?_, ?_, h.stretch⟩
  · show D.code.push _ = base.code ++ relocate _ (d.code.push _)
    rw [relocate_push, Instruction.relocated_of_none rfl, Array.append_push, h.code]
  · rw [Draft.push, Draft.push, Array.size_push, Array.size_push, openLoops_push_loopOpen,
      openLoops_push_loopOpen, h.loops, h.size]
    rfl

theorem close {opening : Nat} (h : Atop base d D)
    (hne : openLoops d.code d.code.size ≠ []) :
    Atop base (d.close opening) (D.close (opening + base.code.size)) := by
  refine ⟨?_, ?_, h.stretch⟩
  · have hsize : ((D.code.size : Nat) : Int) = (d.code.size : Int) + base.code.size := by
      rw [h.size, Int.natCast_add]
    show (D.code.modify _ _).push _ = base.code ++ relocate _ ((d.code.modify _ _).push _)
    rw [relocate_push, Array.append_push, ← modify_append_relocate, ← h.code, hsize]
    rfl
  · rw [openLoops_close, openLoops_close, h.loops, List.tail_append_of_ne_nil (by simpa using hne),
      List.map_tail]

/-- What stands below does not change what is made of a symbol. -/
theorem add (h : Atop base d D) (ha : d.add p s = .ok d') (q : Nat) :
    ∃ D', D.add q s = .ok D' ∧ Atop base d' D' := by
  cases s with
  | act a =>
    cases ha
    refine ⟨_, rfl, h.code, h.loops, ?_⟩
    show some ((D.stretch.getD {}).feed a) = _
    rw [h.stretch]
  | read =>
    cases ha
    exact ⟨_, rfl, h.flush.push rfl rfl⟩
  | write =>
    cases ha
    exact ⟨_, rfl, h.flush.push rfl rfl⟩
  | loopOpen =>
    cases ha
    exact ⟨_, rfl, h.flush.loopOpen p q⟩
  | loopClose =>
    obtain ⟨opening, rest, hl, rfl⟩ := exists_of_add_loopClose ha
    have hL := h.flush.loops
    rw [hl, List.map_cons, List.cons_append] at hL
    exact ⟨_, add_loopClose q hL, h.flush.close (by rw [hl]; nofun)⟩

theorem addAll (h : Atop base d D) (ha : d.addAll p w = .ok d') (q : Nat) :
    ∃ D', D.addAll q w = .ok D' ∧ Atop base d' D' := by
  induction w generalizing d D p q with
  | nil =>
    cases ha
    exact ⟨D, rfl, h⟩
  | cons s w ih =>
    simp only [Draft.addAll] at ha ⊢
    split at ha
    · rename_i d₁ hs
      obtain ⟨D₁, hD₁, h₁⟩ := h.add hs q
      rw [hD₁]
      exact ih h₁ ha (q + 1)
    · cases ha

end Atop

end Draft

/-! ### Linking -/

/-- The code as the body of a loop that opens with the instruction `opening`. -/
def bracketed (opening : Instruction) (code : Array Instruction) : Array Instruction :=
  (#[opening] ++ relocate 1 code).push { kind := .loopClose, jumpTarget := some 0, source := "]" }

/-- The instruction that opens a loop at the start of code that closes at `close`. -/
def openingTo (close : Nat) : Instruction where
  kind := .loopOpen
  jumpTarget := some (close : Int)
  source := "["

namespace Draft
variable {d D : Draft} {w : List Symbol} {s : Symbol} {p : Nat}

theorem flush_flush (d : Draft) : d.flush.flush = d.flush := by
  rw [flush_eq_of_none (by rw [stretch_flush]; rfl), ← stretch_flush d]

theorem add_of_flush (hs : s.isAct = false) (p : Nat) : d.flush.add p s = d.add p s := by
  cases s with
  | act a => cases hs
  | _ => simp only [add, flush_flush]

/-- The stretch being folded may as well end now if no act follows. -/
theorem exists_addAll_of_flush (hd : d.stretch = none ∨ ∀ s, w.head? = some s → s.isAct = false)
    (h : d.flush.addAll p w = .ok D) : ∃ D', d.addAll p w = .ok D' ∧ D'.flush = D.flush := by
  rcases hd with hd | hw
  · have hf : d.flush = d := by
      rw [flush_eq_of_none (by rw [hd]; rfl), ← hd]
    rw [hf] at h
    exact ⟨D, h, rfl⟩
  · cases w with
    | nil =>
      cases h
      exact ⟨d, rfl, (flush_flush d).symm⟩
    | cons s w =>
      rw [addAll, add_of_flush (hw s rfl)] at h
      exact ⟨D, h, rfl⟩

theorem stretch_of_addAll {v : List Symbol} (h : addAll {} 0 v = .ok d)
    (hv : ∀ a : Act, v.getLast? ≠ some (.act a)) : d.stretch = none := by
  have ho : d.outline = Outline.of v := (outline_addAll h).trans (by rw [outline_empty]; rfl)
  have hs : d.stretch = (Outline.of v).stretch := congrArg Outline.stretch ho
  rw [hs]
  obtain rfl | ⟨v, s, rfl⟩ := List.eq_nil_or_concat' v
  · rfl
  · refine Outline.stretch_snoc ?_
    cases s with
    | act a => exact absurd List.getLast?_concat (hv a)
    | _ => rfl

end Draft

namespace Program

variable {v w : List Symbol} {a b code : Array Instruction}

theorem link_eq_ok_iff : link w = .ok code ↔ ∃ d, Draft.addAll {} 0 w = .ok d ∧
    openLoops d.flush.code d.flush.code.size = [] ∧ d.flush.code = code := by
  rw [link]
  constructor
  · intro h
    cases hd : Draft.addAll {} 0 w with
    | ok d =>
      rw [hd] at h
      exact ⟨d, rfl, (Draft.consistent_empty.addAll hd).finish_eq_ok_iff.1 h⟩
    | error e =>
      rw [hd] at h
      cases h
  · rintro ⟨d, hd, h⟩
    rw [hd]
    exact (Draft.consistent_empty.addAll hd).finish_eq_ok_iff.2 h

/-- Linking one text after another. -/
theorem link_append (hv : link v = .ok a) (hw : link w = .ok b) (hs : Symbol.Seam v w) :
    link (v ++ w) = .ok (a ++ relocate a.size b) := by
  obtain ⟨base, hbase, hloops, rfl⟩ := link_eq_ok_iff.1 hv
  obtain ⟨d, hd, hnone, rfl⟩ := link_eq_ok_iff.1 hw
  obtain ⟨D, hD, hatop⟩ := (Draft.Atop.empty base.flush (stretch_flush base)).addAll hd (0 + v.length)
  have hend : base.stretch = none ∨ ∀ s, w.head? = some s → s.isAct = false := by
    by_cases hlast : ∀ a : Act, v.getLast? ≠ some (.act a)
    · exact .inl (Draft.stretch_of_addAll hbase hlast)
    · obtain ⟨a, ha⟩ := not_forall_not.1 hlast
      refine .inr fun s hhead => ?_
      cases s with
      | act b => exact absurd hhead (hs a b ha)
      | _ => rfl
  obtain ⟨D', hD', hflush⟩ := Draft.exists_addAll_of_flush hend hD
  refine link_eq_ok_iff.2 ⟨D', ?_, ?_, ?_⟩
  · rw [Draft.addAll_append, hbase]
    exact hD'
  · rw [hflush, hatop.flush.loops, hnone, hloops]
    rfl
  · rw [hflush, hatop.flush.code]

/-- Linking a text between two brackets. -/
theorem link_bracketed (hw : link w = .ok b) :
    link (.loopOpen :: (w ++ [.loopClose])) = .ok (bracketed (openingTo (b.size + 1)) b) := by
  obtain ⟨d, hd, hnone, rfl⟩ := link_eq_ok_iff.1 hw
  let base : Draft := { code := #[{ kind := .loopOpen, source := "[" }], opened := [(0, 0)] }
  have hopen : Draft.add {} 0 .loopOpen = .ok base := rfl
  obtain ⟨D, hD, hatop⟩ := (Draft.Atop.empty base rfl).addAll hd 1
  have hloops := hatop.flush.loops
  rw [hnone] at hloops
  have hclose := Draft.add_loopClose (1 + w.length) hloops
  have hflush (D : Draft) (o : Nat) (h : D.stretch = none) : (D.close o).flush = D.close o := by
    rw [flush_eq_of_none (by rw [Draft.close, h]; rfl), Draft.close, h]
  refine link_eq_ok_iff.2 ⟨D.flush.close 0, ?_, ?_, ?_⟩
  · rw [Draft.addAll, hopen]
    show Draft.addAll _ 1 (w ++ [.loopClose]) = _
    rw [Draft.addAll_append, hD]
    show Draft.addAll D (1 + w.length) [.loopClose] = _
    rw [Draft.addAll, hclose]
    rfl
  · rw [hflush _ _ (stretch_flush D), Draft.openLoops_close, hloops]
    rfl
  · rw [hflush _ _ (stretch_flush D)]
    have hsize : D.flush.code.size = d.flush.code.size + 1 := hatop.flush.size
    have hcode : D.flush.code =
        #[{ kind := .loopOpen, source := "[" }] ++ relocate 1 d.flush.code := hatop.flush.code
    rw [Draft.close, hsize, hcode, modify_zero_append]
    rfl

end Program

end TapeFold
