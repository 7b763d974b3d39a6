import TapeFold.Proofs.Folding
import TapeFold.Proofs.Frame
import TapeFold.Proofs.Linking

/-!
# Linked code refines the reference

The reference with unchecked moves and the linked code go on together from one symbol that is not
folded to the next: a stretch of acts is walked along by the one and is at most one run for the other,
and a bracket that jumps costs the code a step more, as it executes the partner too
(`Reference.simulates_linked`).
-/

namespace TapeFold

open Outline (index)

/-- The tape `t` has the pointer and the cells of `u`, and may only be longer. -/
structure Tape.Covers (t u : Tape) : Prop where
  pointer : t.pointer = u.pointer
  cell : ∀ k, t.cell k = u.cell k
  size : u.size ≤ t.size
  pointer_lt : t.pointer < t.size

namespace Tape.Covers
variable {t u t' u' : Tape} {w : List Act}

theorem here (h : Covers t u) : t.cell t.pointer = u.cell u.pointer := by
  rw [h.cell, h.pointer]

theorem grow (h : Covers t u) : Covers (t.grow t.pointer.toNat) (u.grow u.pointer.toNat) := by
  have hs := h.size
  refine ⟨?_, fun k => ?_, ?_, ?_⟩
  · rw [pointer_grow, pointer_grow, h.pointer]
  · rw [cell_grow, cell_grow, h.cell]
  · rw [size_grow, size_grow, h.pointer]
    omega
  · rw [pointer_grow, size_grow]
    omega

theorem put (h : Covers t u) (hp : 0 ≤ t.pointer) (v : Int) : Covers (t.put v) (u.put v) := by
  have hs := h.size
  refine ⟨?_, fun k => ?_, ?_, ?_⟩
  · rw [pointer_put, pointer_put, h.pointer]
  · rw [cell_put hp, cell_put (h.pointer ▸ hp), h.cell, h.pointer]
  · rw [size_put, size_put, h.pointer]
    omega
  · rw [pointer_put, size_put]
    omega

theorem stretch (h : Covers t u) (ht : Act.Glided t w t') (hu : Folded u w u') : Covers t' u' := by
  have hp : t'.pointer = u'.pointer := by rw [ht.pointer, hu.pointer, h.pointer]
  have hlt := ht.pointer_lt h.pointer_lt
  have hs := h.size
  have hs' := ht.size
  refine ⟨hp, fun k => ?_, ?_, hlt⟩
  · rcases Int.lt_or_le k 0 with hk | hk
    · rw [cell_of_neg hk, cell_of_neg hk]
    · rw [ht.cell k hk, hu.cell, if_neg (by omega), h.cell, h.pointer]
  · have htouched := ht.touched_lt h.pointer_lt
    rw [h.pointer] at htouched
    have := hu.size_le t'.size (by omega) htouched (by rw [← hu.pointer, ← hp]; exact hlt)
    omega

end Tape.Covers

/-- The machines are as far as each other, the second in at most twice as many steps. -/
structure Together (m c : Machine) : Prop where
  tape : m.tape.Covers c.tape
  input : m.input = c.input
  output : m.output = c.output
  eofValue : m.eofValue = c.eofValue
  focus : c.focus = .dispatch
  unlimited : m.maxSteps = none
  unlimited' : c.maxSteps = none
  steps : c.steps ≤ 2 * m.steps

theorem Together.steps_succ {m c : Machine} (h : Together m c) : c.steps + 1 ≤ 2 * (m.steps + 1) := by
  have := h.steps
  omega

/-- The machines are about to go on with the same stretch or symbol of `w`. -/
def Abreast (w : List Symbol) (m c : Machine) : Prop :=
  ∃ n, n ≤ w.length ∧ (Outline.of (w.take n)).stretch = none ∧ m.cursor = n ∧
    c.cursor = index (w.take n) ∧ 0 ≤ m.tape.pointer ∧ Together m c

/-- The runs have come to the same end, up to zeros at the end of the tape and to the index that
underflowed. -/
structure Comparable (e e' : Ending) : Prop where
  input : e.machine.input = e'.machine.input
  output : e.machine.output = e'.machine.output
  steps : e'.machine.steps ≤ 2 * e.machine.steps
  halt : e.halt = .finished ∧ e'.halt = .finished ∧ e.machine.tape.Covers e'.machine.tape ∨
    (∃ i j, e.halt = .faulted (.underflow i) ∧ e'.halt = .faulted (.underflow j)) ∨
    e.halt = .faulted .interrupted ∧ e'.halt = .faulted .interrupted

theorem Reference.spells_of_drop {w rest : List Symbol} {u : List Act} {n : Nat}
    (h : w.drop n = List.map .act u ++ rest) : Reference.Spells w.toArray n u := by
  induction u generalizing n with
  | nil => exact trivial
  | cons a u ih =>
    have h₀ : (w.drop n)[0]? = w[n + 0]? := List.getElem?_drop
    rw [h] at h₀
    refine ⟨by rw [List.getElem?_toArray]; exact h₀.symm, ih ?_⟩
    rw [← List.tail_drop, h]
    rfl

namespace Reference

open Machine

variable {w rest : List Symbol} {u : List Act} {pairs : BracketPairs} {code : Array Instruction}
  {n : Nat} {m c : Machine} {s : Symbol}

/-- The machines after a stretch: at the symbol that follows it. -/
structure AtSymbol (w : List Symbol) (n : Nat) (m c : Machine) : Prop extends Together m c where
  cursor : m.cursor = n
  cursor' : c.cursor = index (w.take n)

/-! ### Stretches -/

section
variable (h : Linked w pairs code) (hs : (Outline.of (w.take n)).stretch = none)
  (hw : w.drop n = List.map .act u ++ rest)
  (hrest : ∀ s, rest.head? = some s → s.isAct = false) (hmc : AtSymbol w n m c)
include h hs hw hrest hmc

theorem exists_walk_stretch (hp : 0 ≤ m.tape.pointer)
    (hok : ∀ q ∈ Act.touched m.tape.pointer u, 0 ≤ q) :
    ∃ m' c' j, SilentWalk (uncheckedStep w.toArray pairs) u.length m m' ∧
      Walk (Machine.step code) j c c' ∧ AtSymbol w (n + u.length) m' c' := by
  have htape := hmc.tape
  have hsteps := hmc.steps
  obtain ⟨t, hglided, hquiet, hwalk⟩ := walk_of_nonneg (spells_of_drop hw) hmc.cursor hmc.unlimited
    hok
  have hcursor : m.cursor + u.length = (n + u.length : Nat) := by
    rw [hmc.cursor]
    omega
  match hr : (Fold.ofActs u).build with
  | none =>
    refine ⟨_, c, 0, ⟨hwalk, hquiet⟩, .refl, ⟨htape.stretch hglided (.of_build_eq_none hr),
      hmc.input, hmc.output, hmc.eofValue, hmc.focus, hmc.unlimited, hmc.unlimited', ?_⟩, hcursor, ?_⟩
    · show c.steps ≤ 2 * (m.steps + u.length)
      omega
    · rw [index_of_folded_away hs hw hr]
      exact hmc.cursor'
  | some r =>
    have hu : u ≠ [] := by
      rintro rfl
      cases hr
    have hpos := List.length_pos_iff.2 hu
    obtain ⟨i, hi, hrun, hindex⟩ := h.exists_run hs hw hrest hr
    obtain ⟨t', ht', hfolded⟩ := hrun.folded (htape.pointer ▸ hp) (htape.pointer ▸ hok)
    have hat : At code c (index (w.take n)) i := ⟨hmc.focus, hmc.cursor', hi, hmc.unlimited'⟩
    refine ⟨_, _, 1, ⟨hwalk, hquiet⟩, .single (hat.step_run hrun.kind ht'),
      ⟨htape.stretch hglided hfolded, hmc.input, hmc.output, hmc.eofValue, rfl, hmc.unlimited,
        hmc.unlimited', ?_⟩, hcursor, ?_⟩
    · show c.steps + 1 ≤ 2 * (m.steps + u.length)
      omega
    · rw [hindex]

/-- A stretch that changes a cell left of the first one ends both runs. -/
theorem block_of_left (hp : 0 ≤ m.tape.pointer) (hleft : ∃ q ∈ Act.touched m.tape.pointer u, q < 0) :
    Block (uncheckedStep w.toArray pairs) (Machine.step code) (Abreast w) Comparable m c := by
  have htape := hmc.tape
  have hsteps := hmc.steps
  obtain ⟨k, m', e, j, hwalk, hquiet, hstops, hhalt, hout, hin, hlt⟩ :=
    stops_of_left pairs (spells_of_drop hw) hmc.cursor hmc.unlimited hleft
  have hptr := htape.pointer
  have hleft' : ∃ q ∈ Act.touched c.tape.pointer u, q < 0 := hptr ▸ hleft
  match hr : (Fold.ofActs u).build with
  | none =>
    obtain ⟨q, hq, hneg⟩ := hleft
    have := (Fold.build_eq_none hr).2.2 _ (Act.mem_touched_iff.1 hq)
    omega
  | some r =>
    obtain ⟨i, hi, hrun, -⟩ := h.exists_run hs hw hrest hr
    obtain ⟨j', hj'⟩ := hrun.fails hleft'
    have hat : At code c (index (w.take n)) i := ⟨hmc.focus, hmc.cursor', hi, hmc.unlimited'⟩
    refine .stop hwalk .refl hquiet hstops (hat.stops_run hrun.kind hj')
      ⟨hin.trans hmc.input, hout.trans hmc.output, ?_, .inr (.inl ⟨j, j', hhalt, rfl⟩)⟩
    show c.steps + 1 ≤ 2 * e.machine.steps
    omega

end

/-! ### Symbols -/

theorem perform_open_of_neg (hp : m.tape.pointer < 0) :
    perform pairs n .loopOpen m = .error (.underflow m.tape.pointer) m :=
  bind_of_error (onTape_of_error (Tape.get_of_neg hp))

theorem perform_open_of_zero (hp : 0 ≤ m.tape.pointer) (hv : m.tape.cell m.tape.pointer = 0) :
    perform pairs n .loopOpen m = .ok () { m with
      tape := m.tape.grow m.tape.pointer.toNat, cursor := (pairs.getD n none).getD n } := by
  refine (bind_of_ok (onTape_of_ok (Tape.get_of_nonneg hp))).trans ?_
  rw [if_pos hv]
  rfl

theorem perform_open_of_ne (hp : 0 ≤ m.tape.pointer) (hv : m.tape.cell m.tape.pointer ≠ 0) :
    perform pairs n .loopOpen m = .ok () { m with tape := m.tape.grow m.tape.pointer.toNat } := by
  refine (bind_of_ok (onTape_of_ok (Tape.get_of_nonneg hp))).trans ?_
  rw [if_neg hv]
  rfl

theorem perform_close_of_neg (hp : m.tape.pointer < 0) :
    perform pairs n .loopClose m = .error (.underflow m.tape.pointer) m :=
  bind_of_error (onTape_of_error (Tape.get_of_neg hp))

theorem perform_close_of_zero (hp : 0 ≤ m.tape.pointer) (hv : m.tape.cell m.tape.pointer = 0) :
    perform pairs n .loopClose m = .ok () { m with tape := m.tape.grow m.tape.pointer.toNat } := by
  refine (bind_of_ok (onTape_of_ok (Tape.get_of_nonneg hp))).trans ?_
  rw [if_neg (not_not_intro hv)]
  rfl

theorem perform_close_of_ne (hp : 0 ≤ m.tape.pointer) (hv : m.tape.cell m.tape.pointer ≠ 0) :
    perform pairs n .loopClose m = .ok () { m with
      tape := m.tape.grow m.tape.pointer.toNat, cursor := (pairs.getD n none).getD n } := by
  refine (bind_of_ok (onTape_of_ok (Tape.get_of_nonneg hp))).trans ?_
  rw [if_pos hv]
  rfl

theorem abreast_of_symbol {j : Nat} (hs : w[j]? = some s) (ha : s.isAct = false)
    (hc : m.cursor = (j + 1 : Nat)) (hc' : c.cursor = (index (w.take j) + 1 : Nat))
    (hp : 0 ≤ m.tape.pointer) (h : Together m c) : Abreast w m c := by
  refine ⟨j + 1, (List.getElem?_eq_some_iff.1 hs).1, stretch_take_succ hs ha, hc, ?_, hp, h⟩
  rw [index_take_succ hs ha]
  exact hc'

namespace AtSymbol
variable (hmc : AtSymbol w n m c) (hs : w[n]? = some s)
include hmc

theorem next : m.cursor + 1 = (n + 1 : Nat) := by
  rw [hmc.cursor]
  rfl

theorem next' : c.cursor + 1 = (index (w.take n) + 1 : Nat) := by
  rw [hmc.cursor']
  rfl

include hs

theorem at_index (h : Linked w pairs code) (ha : s.isAct = false) :
    At code c (index (w.take n)) (s.bare.withJump (partnerIndex w (pairs.getD n none))) :=
  ⟨hmc.focus, hmc.cursor', h.getElem?_index hs ha, hmc.unlimited'⟩

variable (hne : s ≠ .act .right)
include hne

theorem step_of_ok {m' : Machine} (hp : perform pairs n s m.ticked = .ok () m') :
    uncheckedStep w.toArray pairs m = .ok true { m' with cursor := m'.cursor + 1 } := by
  have hn : m.cursor.toNat = n := by rw [hmc.cursor, Int.toNat_natCast]
  refine stepBy_of_ok (by rw [hn, List.getElem?_toArray]; exact hs) hmc.unlimited ?_
  rw [performUnchecked_of_ne hne, hn]
  exact hp

theorem stops_of_error {m' : Machine} {f : Fault} (hp : perform pairs n s m.ticked = .error f m') :
    Stops (uncheckedStep w.toArray pairs) m ⟨m', .faulted f⟩ := by
  have hn : m.cursor.toNat = n := by rw [hmc.cursor, Int.toNat_natCast]
  refine .faulted (stepBy_of_error (by rw [hn, List.getElem?_toArray]; exact hs) hmc.unlimited ?_)
  rw [performUnchecked_of_ne hne, hn]
  exact hp

end AtSymbol

section
variable (h : Linked w pairs code) (hmc : AtSymbol w n m c)
include h hmc

theorem block_of_read (hs : w[n]? = some .read) :
    Block (uncheckedStep w.toArray pairs) (Machine.step code) (Abreast w) Comparable m c := by
  have htape := hmc.tape
  have hptr := htape.pointer
  have hsteps := hmc.steps_succ
  have hat := hmc.at_index hs h rfl
  match hr : m.input.read with
  | .error .interrupted input =>
    have hr' : c.input.read = .error .interrupted input := hmc.input ▸ hr
    have hm : Stops (uncheckedStep w.toArray pairs) m _ := hmc.stops_of_error hs nofun
      (readCell_of_interrupt (m := m.ticked) hr)
    have hc := hat.stops_of_error (bind_of_error (readCell_of_interrupt (m := c.ticked) hr'))
    exact .stop .refl .refl .zero hm hc ⟨rfl, hmc.output, hsteps, .inr (.inr ⟨rfl, rfl⟩)⟩
  | .ok b input =>
    have hr' : c.input.read = .ok b input := hmc.input ▸ hr
    rcases Int.lt_or_le m.tape.pointer 0 with hp | hp
    · have hm : Stops (uncheckedStep w.toArray pairs) m _ := hmc.stops_of_error hs nofun
        (readCell_of_neg (m := m.ticked) hr hp)
      have hc := hat.stops_of_error
        (bind_of_error (readCell_of_neg (m := c.ticked) hr' (hptr ▸ hp)))
      exact .stop .refl .refl .zero hm hc ⟨rfl, hmc.output, hsteps, .inr (.inl ⟨_, _, rfl, rfl⟩)⟩
    · have hm : uncheckedStep w.toArray pairs m = _ := hmc.step_of_ok hs nofun
        (readCell_of_nonneg (m := m.ticked) hr hp)
      have hc := hat.step_of_ok (bind_of_ok (readCell_of_nonneg (m := c.ticked) hr' (hptr ▸ hp)))
      have hreceived : m.ticked.received b = c.ticked.received b := by
        cases b with
        | none => exact hmc.eofValue
        | some byte => rfl
      have hput := htape.put hp (m.ticked.received b)
      refine .on (.single hm) (.single hc) .zero (abreast_of_symbol hs rfl hmc.next hmc.next' ?_
        ⟨?_, rfl, hmc.output, hmc.eofValue, hmc.focus, hmc.unlimited, hmc.unlimited', hsteps⟩)
      · show 0 ≤ (m.tape.put _).pointer
        rwa [Tape.pointer_put]
      · show (m.tape.put _).Covers (c.tape.put _)
        rw [← hreceived]
        exact hput

theorem block_of_write (hs : w[n]? = some .write) :
    Block (uncheckedStep w.toArray pairs) (Machine.step code) (Abreast w) Comparable m c := by
  have htape := hmc.tape
  have hptr := htape.pointer
  have hsteps := hmc.steps_succ
  have hat := hmc.at_index hs h rfl
  rcases Int.lt_or_le m.tape.pointer 0 with hp | hp
  · have hm : Stops (uncheckedStep w.toArray pairs) m _ := hmc.stops_of_error hs nofun
      (writeCell_of_neg (m := m.ticked) hp)
    have hc := hat.stops_of_error (bind_of_error (writeCell_of_neg (m := c.ticked) (hptr ▸ hp)))
    exact .stop .refl .refl .zero hm hc
      ⟨hmc.input, hmc.output, hsteps, .inr (.inl ⟨_, _, rfl, rfl⟩)⟩
  · have hm : uncheckedStep w.toArray pairs m = _ := hmc.step_of_ok hs nofun
      (writeCell_of_nonneg (m := m.ticked) hp)
    have hc := hat.step_of_ok (bind_of_ok (writeCell_of_nonneg (m := c.ticked) (hptr ▸ hp)))
    refine .on (.single hm) (.single hc) .zero (abreast_of_symbol hs rfl hmc.next hmc.next' ?_
      ⟨htape.grow, hmc.input, ?_, hmc.eofValue, hmc.focus, hmc.unlimited, hmc.unlimited', hsteps⟩)
    · show 0 ≤ (m.tape.grow _).pointer
      rwa [Tape.pointer_grow]
    · show m.output.push (byteOf (m.tape.cell m.tape.pointer)) =
        c.output.push (byteOf (c.tape.cell c.tape.pointer))
      rw [htape.here, hmc.output]

omit h in
/-- Both machines have looked at the cell under the pointer and are past the symbol at `j`, at the
cost of one step and of at most two. -/
theorem block_of_looked {j k : Nat} {c' : Machine} (hs : w[j]? = some s) (ha : s.isAct = false)
    (hp : 0 ≤ m.tape.pointer)
    (hm : uncheckedStep w.toArray pairs m = .ok true { m.ticked with
      tape := m.tape.grow m.tape.pointer.toNat, cursor := (j : Int) + 1 })
    (hc : Walk (Machine.step code) (k + 1) c c') (hk : k + 1 ≤ 2)
    (hc' : c' = { c with
      tape := c.tape.grow c.tape.pointer.toNat, cursor := (index (w.take j) + 1 : Nat),
      focus := .dispatch, steps := c.steps + (k + 1) }) :
    Block (uncheckedStep w.toArray pairs) (Machine.step code) (Abreast w) Comparable m c := by
  subst hc'
  have hsteps := hmc.steps
  refine .on (.single hm) hc .zero (abreast_of_symbol hs ha rfl rfl ?_ ⟨hmc.tape.grow, hmc.input,
    hmc.output, hmc.eofValue, rfl, hmc.unlimited, hmc.unlimited', ?_⟩)
  · show 0 ≤ (m.tape.grow _).pointer
    rwa [Tape.pointer_grow]
  · show c.steps + (k + 1) ≤ 2 * (m.steps + 1)
    omega

theorem block_of_loopOpen (hs : w[n]? = some .loopOpen) :
    Block (uncheckedStep w.toArray pairs) (Machine.step code) (Abreast w) Comparable m c := by
  have htape := hmc.tape
  have hptr := htape.pointer
  have hsteps := hmc.steps_succ
  have hat := hmc.at_index hs h rfl
  rcases Int.lt_or_le m.tape.pointer 0 with hp | hp
  · have hm : Stops (uncheckedStep w.toArray pairs) m _ := hmc.stops_of_error hs nofun
      (perform_open_of_neg (m := m.ticked) hp)
    exact .stop .refl .refl .zero hm (hat.stops_open_of_neg rfl (hptr ▸ hp))
      ⟨hmc.input, hmc.output, hsteps, .inr (.inl ⟨_, _, rfl, rfl⟩)⟩
  have hp' : 0 ≤ c.tape.pointer := hptr ▸ hp
  have hcell := htape.here
  by_cases hv : m.tape.cell m.tape.pointer = 0
  · -- the reference goes past the partner, the code to the partner, which it then passes
    rcases h.pairing.opens n (List.getElem?_eq_some_iff.1 hs).1 hs with hmem | ⟨j, -, -, hj, h₁, -⟩
    · cases hmem
    have hpair := getD_of_some h₁
    have htarget : (Symbol.loopOpen.bare.withJump
        (partnerIndex w (pairs.getD n none))).jumpTarget = some (index (w.take j) : Int) := by
      rw [hpair]
      rfl
    have hm : uncheckedStep w.toArray pairs m = _ := hmc.step_of_ok hs nofun
      (perform_open_of_zero (m := m.ticked) hp hv)
    rw [hpair] at hm
    have hc := hat.step_open_of_zero rfl htarget hp' (hcell ▸ hv)
    have hat' : At code (c.looked (index (w.take j))) (index (w.take j)) _ :=
      ⟨rfl, rfl, h.getElem?_index hj rfl, hmc.unlimited'⟩
    have hc' := hat'.step_close_of_zero rfl (by rwa [pointer_looked])
      (by rw [pointer_looked, cell_looked, ← hcell, hv])
    exact block_of_looked hmc hj rfl hp hm (.cons hc (.single hc')) (Nat.le_refl 2)
      (looked_looked _ _ _)
  · have hm : uncheckedStep w.toArray pairs m = _ := hmc.step_of_ok hs nofun
      (perform_open_of_ne (m := m.ticked) hp hv)
    rw [show m.ticked.cursor = (n : Int) from hmc.cursor] at hm
    exact block_of_looked hmc hs rfl hp hm
      (.single (hat.step_open_of_ne rfl ⟨rfl, rfl⟩ hp' (hcell ▸ hv))) (by decide) rfl

theorem block_of_loopClose (hs : w[n]? = some .loopClose) :
    Block (uncheckedStep w.toArray pairs) (Machine.step code) (Abreast w) Comparable m c := by
  have htape := hmc.tape
  have hptr := htape.pointer
  have hsteps := hmc.steps_succ
  have hat := hmc.at_index hs h rfl
  rcases Int.lt_or_le m.tape.pointer 0 with hp | hp
  · have hm : Stops (uncheckedStep w.toArray pairs) m _ := hmc.stops_of_error hs nofun
      (perform_close_of_neg (m := m.ticked) hp)
    exact .stop .refl .refl .zero hm (hat.stops_close_of_neg rfl (hptr ▸ hp))
      ⟨hmc.input, hmc.output, hsteps, .inr (.inl ⟨_, _, rfl, rfl⟩)⟩
  have hp' : 0 ≤ c.tape.pointer := hptr ▸ hp
  have hcell := htape.here
  by_cases hv : m.tape.cell m.tape.pointer = 0
  · have hm : uncheckedStep w.toArray pairs m = _ := hmc.step_of_ok hs nofun
      (perform_close_of_zero (m := m.ticked) hp hv)
    rw [show m.ticked.cursor = (n : Int) from hmc.cursor] at hm
    exact block_of_looked hmc hs rfl hp hm
      (.single (hat.step_close_of_zero rfl hp' (hcell ▸ hv))) (by decide) rfl
  · obtain ⟨j, -, hj, h₁, -⟩ := h.pairing.closes n (List.getElem?_eq_some_iff.1 hs).1 hs
    have hpair := getD_of_some h₁
    have htarget : (Symbol.loopClose.bare.withJump
        (partnerIndex w (pairs.getD n none))).jumpTarget = some (index (w.take j) : Int) := by
      rw [hpair]
      rfl
    have hm : uncheckedStep w.toArray pairs m = _ := hmc.step_of_ok hs nofun
      (perform_close_of_ne (m := m.ticked) hp hv)
    rw [hpair] at hm
    have hc := hat.step_close_of_ne rfl htarget hp' (hcell ▸ hv)
    have hat' : At code (c.looked (index (w.take j))) (index (w.take j)) _ :=
      ⟨rfl, rfl, h.getElem?_index hj rfl, hmc.unlimited'⟩
    have hc' := hat'.step_open_of_ne rfl ⟨rfl, rfl⟩ (by rwa [pointer_looked])
      (by rwa [pointer_looked, cell_looked, ← hcell])
    exact block_of_looked hmc hj rfl hp hm (.cons hc (.single hc')) (Nat.le_refl 2)
      (looked_looked _ _ _)

theorem block_of_end (hn : n = w.length) :
    Block (uncheckedStep w.toArray pairs) (Machine.step code) (Abreast w) Comparable m c := by
  have hm : uncheckedStep w.toArray pairs m = .ok false m := by
    refine stepBy_of_none ?_
    rw [hmc.cursor, Int.toNat_natCast, hn, List.getElem?_toArray, List.getElem?_length]
  have hc : Machine.step code c = .ok false c := by
    refine step_of_end hmc.focus (Int.le_of_eq ?_)
    rw [hmc.cursor', h.size, hn, List.take_length]
  exact .stop .refl .refl .zero (.finished hm) (.finished hc)
    ⟨hmc.input, hmc.output, hmc.steps, .inl ⟨rfl, rfl, hmc.tape⟩⟩

end

theorem simulates_linked (h : Linked w pairs code) :
    Simulates (uncheckedStep w.toArray pairs) (Machine.step code) (Abreast w) Comparable := by
  rintro m c ⟨n, hn, hs, hc, hc', hp, hmc⟩
  obtain ⟨u, rest, hw, hrest⟩ := Symbol.exists_stretch (w.drop n)
  have hmc : AtSymbol w n m c := ⟨hmc, hc, hc'⟩
  by_cases hok : ∀ q ∈ Act.touched m.tape.pointer u, 0 ≤ q
  · obtain ⟨m', c', j, hm', hc', hmc'⟩ := exists_walk_stretch h hs hw hrest hmc hp hok
    refine .prepend hm' hc' ?_
    have hsym := getElem?_of_drop hw
    cases hr : rest.head? with
    | none =>
      refine block_of_end h hmc' ?_
      have hlen := congrArg List.length hw
      rw [List.head?_eq_none_iff.1 hr, List.append_nil, List.length_map, List.length_drop] at hlen
      omega
    | some s =>
      rw [hr] at hsym
      cases s with
      | act a => cases hrest _ hr
      | loopOpen => exact block_of_loopOpen h hmc' hsym
      | loopClose => exact block_of_loopClose h hmc' hsym
      | read => exact block_of_read h hmc' hsym
      | write => exact block_of_write h hmc' hsym
  · refine block_of_left h hs hw hrest hmc hp ?_
    obtain ⟨q, hq⟩ := Classical.not_forall.1 hok
    obtain ⟨hq, hneg⟩ := Classical.not_imp.1 hq
    exact ⟨q, hq, by omega⟩

end Reference

end TapeFold
