import TapeFold.Compile
import TapeFold.Proofs.Outline
import TapeFold.Proofs.Pairing

/-!
# Linking and pairing

The compiler looks back over its code for the loop that a closing bracket belongs to; the reference
keeps a stack of positions. Both come to the same partners and the same errors
(`Program.link_agrees`): the loops that the code leaves open are those on the stack
(`openBefore?_eq`).
-/

namespace TapeFold

open Outline (index)

/-! ### The loops that code leaves open -/

/-- The loops that the first `n` instructions leave open, innermost first. -/
def openLoops (code : Array Instruction) : (n : Nat) → List Nat
  | 0 => []
  | n + 1 =>
    match code[n]?.map Instruction.kind with
    | some .loopOpen => n :: openLoops code n
    | some .loopClose => (openLoops code n).tail
    | _ => openLoops code n

/-- Looking back for a loop is looking it up on the stack of open loops. -/
theorem openBefore?_eq (code : Array Instruction) (n c : Nat) :
    openBefore? code n c = (openLoops code n)[c]? := by
  induction n generalizing c with
  | zero => rfl
  | succ n ih =>
    unfold openBefore? openLoops
    cases h : code[n]?.map Instruction.kind with
    | none => exact ih c
    | some kind =>
      cases kind with
      | run => exact ih c
      | read => exact ih c
      | write => exact ih c
      | loopClose => exact (ih (c + 1)).trans (List.getElem?_tail ..).symm
      | loopOpen =>
        cases c with
        | zero => rfl
        | succ c => exact ih c

theorem matchingOpen?_eq (code : Array Instruction) :
    matchingOpen? code = (openLoops code code.size).head? := by
  rw [matchingOpen?, openBefore?_eq, List.head?_eq_getElem?]

section
variable {code code' : Array Instruction} {i : Instruction}

theorem openLoops_congr {n : Nat}
    (h : ∀ k, k < n → code[k]?.map Instruction.kind = code'[k]?.map Instruction.kind) :
    openLoops code n = openLoops code' n := by
  induction n with
  | zero => rfl
  | succ n ih =>
    rw [openLoops, openLoops, h n (Nat.lt_succ_self n),
      ih fun k hk => h k (Nat.lt_succ_of_lt hk)]

theorem openLoops_push (code : Array Instruction) (i : Instruction) :
    openLoops (code.push i) (code.push i).size =
      match i.kind with
      | .loopOpen => code.size :: openLoops code code.size
      | .loopClose => (openLoops code code.size).tail
      | _ => openLoops code code.size := by
  have h : openLoops (code.push i) code.size = openLoops code code.size :=
    openLoops_congr fun k hk => by rw [Array.getElem?_push, if_neg (by omega)]
  rw [Array.size_push, openLoops, Array.getElem?_push_size, h]
  cases hk : i.kind <;> simp [hk]

theorem openLoops_modify (code : Array Instruction) (k : Nat) (target : Option Int) (n : Nat) :
    openLoops (code.modify k (·.withJump target)) n = openLoops code n := by
  refine openLoops_congr fun j _ => ?_
  rw [Array.getElem?_modify]
  split
  · rw [Option.map_map]
    rfl
  · rfl

/-- The code without its jumps. -/
def unlinked (code : Array Instruction) : Array Instruction := code.map (·.withJump none)

theorem unlinked_push (code : Array Instruction) (i : Instruction) :
    unlinked (code.push i) = (unlinked code).push (i.withJump none) := Array.map_push

theorem unlinked_modify (code : Array Instruction) (k : Nat) (target : Option Int) :
    unlinked (code.modify k (·.withJump target)) = unlinked code := by
  refine Array.ext_getElem? fun j => ?_
  rw [unlinked, unlinked, Array.getElem?_map, Array.getElem?_map, Array.getElem?_modify]
  split
  · rw [Option.map_map]
    rfl
  · rfl

theorem size_unlinked (code : Array Instruction) : (unlinked code).size = code.size :=
  Array.size_map

end

/-- The draft without its links. -/
def Draft.outline (d : Draft) : Outline := ⟨unlinked d.code, d.stretch⟩

theorem Draft.addAll_append (d : Draft) (p : Nat) (v w : List Symbol) :
    d.addAll p (v ++ w) = (d.addAll p v).bind fun d' => d'.addAll (p + v.length) w := by
  induction v generalizing d p with
  | nil => rfl
  | cons s v ih =>
    rw [List.cons_append, addAll, addAll]
    cases d.add p s with
    | error e => rfl
    | ok d' =>
      have hlen : p + (s :: v).length = p + 1 + v.length := by
        rw [List.length_cons]
        omega
      rw [hlen]
      exact ih d' (p + 1)

/-! ### Compiling next to the reference -/

/-- Where the partner of a bracket stands in the code. -/
def partnerIndex (w : List Symbol) (partner : Option Nat) : Option Int :=
  partner.map fun j => (index (w.take j) : Int)

/-- The brackets among the first `n` of the symbols `w` are linked in `code` as they are paired. -/
def Jumps (w : List Symbol) (n : Nat) (code : Array Instruction) (pairs : BracketPairs) : Prop :=
  ∀ k s, k < n → w[k]? = some s → s.isAct = false →
    ∃ i, code[index (w.take k)]? = some i ∧ i.jumpTarget = partnerIndex w (pairs.getD k none)

/-- The open loops of the draft are those on the stack, and the closed ones are linked. -/
structure Links (w : List Symbol) (n : Nat) (d : Draft) (pairs : BracketPairs) (stack : List Nat) :
    Prop where
  opened : d.opened = stack.map fun p => (index (w.take p), p)
  loops : openLoops d.code d.code.size = stack.map fun p => index (w.take p)
  jumps : Jumps w n d.code pairs

/-- The draft after `n` of the symbols `w`. -/
structure Linking (w : List Symbol) (n : Nat) (d : Draft) (pairs : BracketPairs)
    (stack : List Nat) : Prop extends Links w n d pairs stack where
  bare : unlinked d.code = (Outline.of (w.take n)).code
  stretch : d.stretch = (Outline.of (w.take n)).stretch

/-- The code of `w`, linked as `pairs` pairs its brackets. -/
structure Linked (w : List Symbol) (pairs : BracketPairs) (code : Array Instruction) : Prop where
  pairing : Pairing w w.length pairs []
  bare : unlinked code = Outline.bare w
  jumps : Jumps w w.length code pairs

/-- The compiler and the reference come to linked code and its pairs, or to the same error. -/
inductive Agree (w : List Symbol) :
    Except BracketError (Array Instruction) → Except BracketError BracketPairs → Prop
  | linked {code : Array Instruction} {pairs : BracketPairs} (h : Linked w pairs code) :
      Agree w (.ok code) (.ok pairs)
  | failed (e : BracketError) : Agree w (.error e) (.error e)

section
variable {w rest : List Symbol} {n p : Nat} {d : Draft} {pairs : BracketPairs} {stack : List Nat}
  {s : Symbol} {i : Instruction}

theorem take_succ_of_getElem? (h : w[n]? = some s) : w.take (n + 1) = w.take n ++ [s] := by
  rw [List.take_add_one, h]
  rfl

theorem stretch_take_succ (h : w[n]? = some s) (hs : s.isAct = false) :
    (Outline.of (w.take (n + 1))).stretch = none := by
  rw [take_succ_of_getElem? h, Outline.stretch_snoc hs]

theorem index_take_succ (h : w[n]? = some s) (hs : s.isAct = false) :
    index (w.take (n + 1)) = index (w.take n) + 1 := by
  rw [take_succ_of_getElem? h, Outline.index_snoc hs]

theorem index_take_lt {k : Nat} (hk : k < n) (h : w[k]? = some s) (hs : s.isAct = false) :
    index (w.take k) < index (w.take n) := by
  obtain ⟨m, rfl⟩ := Nat.exists_eq_add_of_lt hk
  have hsplit : w.take (k + m + 1) = w.take k ++ s :: (w.drop (k + 1)).take m := by
    rw [Nat.add_right_comm, List.take_add, take_succ_of_getElem? h, List.append_assoc]
    rfl
  rw [hsplit]
  exact Outline.index_lt _ hs _

/-- Different symbols that are not folded have different instructions. -/
theorem index_take_inj {k : Nat} {t : Symbol} (hk : w[k]? = some t) (ht : t.isAct = false)
    (hn : w[n]? = some s) (hs : s.isAct = false) :
    index (w.take k) = index (w.take n) ↔ k = n := by
  refine ⟨fun h => ?_, fun h => by rw [h]⟩
  rcases Nat.lt_trichotomy k n with hlt | rfl | hlt
  · exact absurd h (Nat.ne_of_lt (index_take_lt hlt hk ht))
  · rfl
  · exact absurd h (Nat.ne_of_gt (index_take_lt hlt hn hs))

theorem index_take_lt_iff {k : Nat} {t : Symbol} (hk : w[k]? = some t) (ht : t.isAct = false)
    (hn : w[n]? = some s) (hs : s.isAct = false) :
    index (w.take k) < index (w.take n) ↔ k < n := by
  refine ⟨fun h => ?_, fun h => index_take_lt h hk ht⟩
  by_contra hnot
  rcases Nat.lt_or_eq_of_le (Nat.not_lt.1 hnot) with hlt | rfl
  · exact absurd (index_take_lt hlt hn hs) (Nat.lt_asymm h)
  · exact absurd h (Nat.lt_irrefl _)

theorem Linking.empty (w : List Symbol) : Linking w 0 {} #[] [] :=
  ⟨⟨rfl, rfl, fun k _ hk => absurd hk (Nat.not_lt_zero k)⟩, Array.map_empty, rfl⟩

theorem Links.push_run (h : Links w n d pairs stack) (hi : i.kind = .run) :
    Links w n { d with code := d.code.push i, stretch := none } pairs stack := by
  refine ⟨h.opened, ?_, fun k s hk hs ha => ?_⟩
  · rw [← h.loops, openLoops_push, hi]
  · obtain ⟨i', hi', hj⟩ := h.jumps k s hk hs ha
    exact ⟨i', (Outline.Extends.push _ i).getElem?_of_some hi', hj⟩

theorem flush_eq_of_none (h : d.stretch.bind Fold.build = none) :
    d.flush = { d with stretch := none } := by
  obtain ⟨code, opened, stretch⟩ := d
  cases stretch with
  | none => rfl
  | some f => simp only [Draft.flush, show f.build = none from h]

theorem flush_eq_of_some (h : d.stretch.bind Fold.build = some i) :
    d.flush = { d with code := d.code.push i, stretch := none } := by
  obtain ⟨code, opened, stretch⟩ := d
  cases stretch with
  | none => cases h
  | some f => simp only [Draft.flush, show f.build = some i from h]

/-- What is flushed is a run without target, or nothing. -/
theorem Draft.flush_cases (d : Draft) :
    (d.stretch.bind Fold.build = none ∧ d.flush = { d with stretch := none }) ∨
    ∃ i : Instruction, d.stretch.bind Fold.build = some i ∧ i.kind = .run ∧ i.jumpTarget = none ∧
      d.flush = { d with code := d.code.push i, stretch := none } := by
  cases hf : d.stretch.bind Fold.build with
  | none => exact .inl ⟨rfl, flush_eq_of_none hf⟩
  | some i =>
    obtain ⟨f, -, hb⟩ := Option.bind_eq_some_iff.1 hf
    obtain ⟨ds, base, low, rfl⟩ := Fold.eq_run_of_build hb
    exact .inr ⟨_, rfl, rfl, rfl, flush_eq_of_some hf⟩

theorem Draft.unlinked_flush (d : Draft) : unlinked d.flush.code = d.outline.flush := by
  rw [Outline.flush]
  cases hf : d.outline.stretch.bind Fold.build with
  | none =>
    rw [flush_eq_of_none hf]
    rfl
  | some i =>
    obtain ⟨f, -, hb⟩ := Option.bind_eq_some_iff.1 hf
    obtain ⟨ds, base, low, rfl⟩ := Fold.eq_run_of_build hb
    rw [flush_eq_of_some hf]
    exact unlinked_push _ _

theorem Linking.flush (h : Linking w n d pairs stack) :
    Links w n d.flush pairs stack ∧ unlinked d.flush.code = Outline.bare (w.take n) := by
  constructor
  · rcases d.flush_cases with ⟨-, hf⟩ | ⟨i, -, hi, -, hf⟩
    · rw [hf]
      exact ⟨h.opened, h.loops, h.jumps⟩
    · rw [hf]
      exact h.push_run hi
  · rw [d.unlinked_flush, Draft.outline, h.bare, h.stretch]
    rfl

/-! ### One symbol -/

section
variable {code : Array Instruction}

theorem getD_push (hp : pairs.size = n) (partner : Option Nat) (k : Nat) :
    (pairs.push partner).getD k none = if k = n then partner else pairs.getD k none := by
  rw [Array.getD_eq_getD_getElem?, Array.getElem?_push, hp, Array.getD_eq_getD_getElem?]
  split <;> rfl

theorem Jumps.push {partner : Option Nat} (h : Jumps w n code pairs) (hp : pairs.size = n)
    (hc : code.size = index (w.take n)) (hi : i.jumpTarget = partnerIndex w partner) :
    Jumps w (n + 1) (code.push i) (pairs.push partner) := by
  intro k s hk hs ha
  rw [getD_push hp]
  rcases Nat.lt_succ_iff_lt_or_eq.1 hk with hk | rfl
  · obtain ⟨i', hi', hj⟩ := h k s hk hs ha
    refine ⟨i', (Outline.Extends.push _ i).getElem?_of_some hi', ?_⟩
    rw [if_neg (Nat.ne_of_lt hk), hj]
  · exact ⟨i, by rw [← hc, Array.getElem?_push_size], by rw [if_pos rfl, hi]⟩

theorem Jumps.modify (h : Jumps w n code pairs) (hp : pairs.size = n) (hpn : p < n)
    (ho : w[p]? = some .loopOpen) :
    Jumps w n (code.modify (index (w.take p)) (·.withJump (some (index (w.take n) : Int))))
      (pairs.setIfInBounds p (some n)) := by
  intro k s hk hs ha
  obtain ⟨i, hi, hj⟩ := h k s hk hs ha
  rw [Array.getElem?_modify, Array.getD_eq_getD_getElem?, Array.getElem?_setIfInBounds, hp]
  rcases Nat.lt_trichotomy p k with hpk | rfl | hpk
  · have hne := Nat.ne_of_lt (index_take_lt hpk ho rfl)
    refine ⟨i, by rw [if_neg hne, hi], ?_⟩
    rw [if_neg (Nat.ne_of_lt hpk), hj, Array.getD_eq_getD_getElem?]
  · refine ⟨_, by rw [if_pos rfl, hi]; rfl, ?_⟩
    rw [if_pos rfl, if_pos hpn]
    rfl
  · have hne := Nat.ne_of_gt (index_take_lt hpk hs ha)
    refine ⟨i, by rw [if_neg hne, hi], ?_⟩
    rw [if_neg (Nat.ne_of_gt hpk), hj, Array.getD_eq_getD_getElem?]

end

theorem Linking.act {a : Act} (h : Linking w n d pairs stack) (hp : pairs.size = n)
    (hs : w[n]? = some (.act a)) :
    Linking w (n + 1) { d with stretch := some ((d.stretch.getD {}).feed a) } (pairs.push none)
      stack := by
  refine ⟨⟨h.opened, h.loops, fun k s hk hks ha => ?_⟩, ?_, ?_⟩
  · rcases Nat.lt_succ_iff_lt_or_eq.1 hk with hk | rfl
    · obtain ⟨i, hi, hj⟩ := h.jumps k s hk hks ha
      exact ⟨i, hi, by rw [getD_push hp, if_neg (Nat.ne_of_lt hk), hj]⟩
    · rw [hs] at hks
      cases hks
      cases ha
  · rw [take_succ_of_getElem? hs, Outline.of_act]
    exact h.bare
  · rw [take_succ_of_getElem? hs, Outline.of_act, h.stretch]

/-- A symbol that is not folded, whose instruction may have a partner before it. -/
theorem Linking.snoc {d' : Draft} (hs : w[n]? = some s) (ha : s.isAct = false)
    (h : Links w (n + 1) d' pairs stack)
    (hb : unlinked d'.code = (Outline.bare (w.take n)).push s.bare) (hd : d'.stretch = none) :
    Linking w (n + 1) d' pairs stack := by
  refine ⟨h, ?_, ?_⟩
  · rw [take_succ_of_getElem? hs, Outline.of_snoc ha, hb]
  · rw [take_succ_of_getElem? hs, Outline.stretch_snoc ha, hd]

theorem stretch_flush (d : Draft) : d.flush.stretch = none := by
  obtain ⟨code, opened, stretch⟩ := d
  cases stretch with
  | none => rfl
  | some f =>
    simp only [Draft.flush]
    split <;> rfl

theorem Linking.size_flush (h : Linking w n d pairs stack) :
    d.flush.code.size = index (w.take n) := by
  rw [← size_unlinked, h.flush.2]
  rfl

theorem Linking.plain (h : Linking w n d pairs stack) (hp : pairs.size = n) (hs : w[n]? = some s)
    (hi : s.bare.kind = .read ∨ s.bare.kind = .write) :
    Linking w (n + 1) (d.flush.push s.bare) (pairs.push none) stack := by
  have ha : s.isAct = false := by
    cases s with
    | act a => rcases hi with hi | hi <;> cases hi
    | _ => rfl
  have hj : s.bare.withJump none = s.bare := by cases s <;> rfl
  obtain ⟨hl, hb⟩ := h.flush
  refine .snoc hs ha ⟨hl.opened, ?_, hl.jumps.push hp h.size_flush ?_⟩ ?_ (stretch_flush d)
  · rw [← hl.loops]
    refine (openLoops_push _ _).trans ?_
    rcases hi with hi | hi <;> rw [hi]
  · rw [← hj]
    rfl
  · rw [← hb, ← hj]
    exact unlinked_push _ _

theorem Linking.loopOpen (h : Linking w n d pairs stack) (hp : pairs.size = n)
    (hs : w[n]? = some .loopOpen) :
    Linking w (n + 1)
      ({ d.flush with opened := (d.flush.code.size, n) :: d.flush.opened }.push
        { kind := .loopOpen, source := "[" }) (pairs.push none) (n :: stack) := by
  obtain ⟨hl, hb⟩ := h.flush
  refine .snoc hs rfl ⟨?_, ?_, hl.jumps.push hp h.size_flush rfl⟩ ?_ (stretch_flush d)
  · rw [List.map_cons, ← hl.opened, ← h.size_flush]
    rfl
  · rw [List.map_cons, ← hl.loops, ← h.size_flush]
    exact openLoops_push _ _
  · rw [← hb]
    exact unlinked_push _ _

/-- A closing bracket is linked with the innermost open loop. -/
theorem Linking.loopClose (h : Linking w n d pairs (p :: stack)) (hp : Pairing w n pairs (p :: stack))
    (hs : w[n]? = some .loopClose) :
    ∃ d', d.add n .loopClose = .ok d' ∧
      Linking w (n + 1) d' ((pairs.setIfInBounds p (some n)).push (some p)) stack := by
  obtain ⟨hl, hb⟩ := h.flush
  obtain ⟨hpn, ho, -⟩ := hp.stacked p List.mem_cons_self
  have hmatch : matchingOpen? d.flush.code = some (index (w.take p)) := by
    rw [matchingOpen?_eq, hl.loops]
    rfl
  refine ⟨_, by simp only [Draft.add, hmatch]; rfl, ?_⟩
  have hsize : (pairs.setIfInBounds p (some n)).size = n := by
    rw [Array.size_setIfInBounds, hp.size]
  have hjumps := hl.jumps.modify hp.size hpn ho
  rw [← h.size_flush] at hjumps
  refine .snoc hs rfl ⟨?_, ?_, hjumps.push hsize ?_ rfl⟩ ?_ (stretch_flush d)
  · show d.flush.opened.eraseP _ = _
    rw [hl.opened, List.map_cons, List.eraseP_cons_of_pos (by simp)]
  · refine (openLoops_push _ _).trans ?_
    simp only
    rw [Array.size_modify, openLoops_modify, hl.loops, List.map_cons, List.tail_cons]
  · rw [Array.size_modify, h.size_flush]
  · rw [← hb]
    refine (unlinked_push _ _).trans ?_
    rw [unlinked_modify]
    rfl

/-! ### All symbols -/

theorem Linking.finish (h : Linking w w.length d pairs stack)
    (hp : Pairing w w.length pairs stack) :
    Agree w d.finish (pairFrom pairs stack w.length []) := by
  obtain ⟨hl, hb⟩ := h.flush
  rw [List.take_length] at hb
  rw [Draft.finish, hl.opened, List.getLast?_map, pairFrom]
  cases hlast : stack.getLast? with
  | none =>
    obtain rfl := List.getLast?_eq_none_iff.1 hlast
    exact .linked ⟨hp, hb, hl.jumps⟩
  | some p => exact .failed _

theorem link_from (h : Linking w n d pairs stack) (hp : Pairing w n pairs stack)
    (hr : w.drop n = rest) (hn : n ≤ w.length) :
    Agree w ((d.addAll n rest).bind Draft.finish) (pairFrom pairs stack n rest) := by
  induction rest generalizing n d pairs stack with
  | nil =>
    obtain rfl : n = w.length := Nat.le_antisymm hn (List.drop_eq_nil_iff.1 hr)
    exact h.finish hp
  | cons s rest ih =>
    have hs : w[n]? = some s := by
      have h₀ : (w.drop n)[0]? = w[n + 0]? := List.getElem?_drop
      rw [hr] at h₀
      exact h₀.symm
    have hr' : w.drop (n + 1) = rest := by rw [← List.tail_drop, hr, List.tail_cons]
    have hn' : n + 1 ≤ w.length := (List.getElem?_eq_some_iff.1 hs).1
    cases s with
    | act a => exact ih (h.act hp.size hs) (hp.push hs nofun) hr' hn'
    | read => exact ih (h.plain hp.size hs (.inl rfl)) (hp.push hs nofun) hr' hn'
    | write => exact ih (h.plain hp.size hs (.inr rfl)) (hp.push hs nofun) hr' hn'
    | loopOpen => exact ih (h.loopOpen hp.size hs) (hp.push hs nofun) hr' hn'
    | loopClose =>
      cases stack with
      | nil =>
        have hmatch : matchingOpen? d.flush.code = none := by
          rw [matchingOpen?_eq, h.flush.1.loops]
          rfl
        simp only [Draft.addAll, Draft.add, hmatch, pairFrom]
        exact .failed _
      | cons p stack =>
        obtain ⟨d', hd', h'⟩ := h.loopClose hp hs
        simp only [Draft.addAll, hd', pairFrom]
        exact ih h' (hp.close hs) hr' hn'

theorem Program.link_agrees (w : List Symbol) : Agree w (Program.link w) (pairBrackets w) :=
  link_from (Linking.empty w) (Pairing.empty w) rfl (Nat.zero_le _)

end

/-! ### Linked code -/

theorem getD_of_some {pairs : BracketPairs} {n : Nat} {o : Option Nat} (h : pairs[n]? = some o) :
    pairs.getD n none = o := by
  rw [Array.getD_eq_getD_getElem?, h]
  rfl

namespace Linked
variable {w : List Symbol} {pairs : BracketPairs} {code : Array Instruction} {i : Instruction}
  {s : Symbol} {k n : Nat} (h : Linked w pairs code)
include h

theorem getElem?_bare (k : Nat) : (Outline.bare w)[k]? = code[k]?.map (·.withJump none) := by
  rw [← h.bare, unlinked, Array.getElem?_map]

theorem size : code.size = index w := by
  rw [← size_unlinked, h.bare]
  rfl

theorem unmarked (hi : code[k]? = some i) : i.Unmarked := by
  have hb := h.getElem?_bare k
  rw [hi] at hb
  exact Outline.unmarked (i := i.withJump none) hb

theorem getElem?_index (hs : w[n]? = some s) (ha : s.isAct = false) :
    code[index (w.take n)]? = some (s.bare.withJump (partnerIndex w (pairs.getD n none))) := by
  obtain ⟨i, hi, hj⟩ := h.jumps n s (List.getElem?_eq_some_iff.1 hs).1 hs ha
  have hw : w = w.take n ++ s :: w.drop (n + 1) := by
    rw [List.append_cons, ← take_succ_of_getElem? hs, List.take_append_drop]
  have hb := Outline.getElem?_bare_index (w.take n) ha (w.drop (n + 1))
  rw [← hw, h.getElem?_bare, hi] at hb
  have hbare : i.withJump none = s.bare := Option.some.inj hb
  rw [hi, ← hj, ← hbare]
  rfl

theorem exists_symbol (hi : code[k]? = some i) (hk : i.kind ≠ .run) :
    ∃ n s, w[n]? = some s ∧ index (w.take n) = k ∧
      i = s.bare.withJump (partnerIndex w (pairs.getD n none)) := by
  have hb := h.getElem?_bare k
  rw [hi] at hb
  obtain ⟨v, s, rest, hw, ha, hv⟩ := Outline.exists_symbol hb hk
  have hs : w[v.length]? = some s := by
    rw [hw, List.getElem?_append_right (Nat.le_refl _), Nat.sub_self]
    rfl
  have htake : w.take v.length = v := by
    rw [hw, List.take_left]
  have hi' := h.getElem?_index hs ha
  rw [htake, hv, hi] at hi'
  exact ⟨v.length, s, hs, by rw [htake, hv], Option.some.inj hi'⟩

/-- A loop that opens stands for an opening bracket, and its target for the partner of that. -/
theorem exists_partner (hi : code[k]? = some i) (hk : i.kind = .loopOpen) :
    ∃ (n j : Nat) (c : Instruction), n < j ∧ pairs[n]? = some (some j) ∧ index (w.take n) = k ∧
      i.jumpTarget = some (index (w.take j) : Int) ∧ code[index (w.take j)]? = some c ∧
      c.kind = .loopClose ∧ c.jumpTarget = some (k : Int) := by
  obtain ⟨n, s, hs, hn, rfl⟩ := h.exists_symbol hi (by rw [hk]; nofun)
  obtain rfl : s = .loopOpen := by cases s <;> cases hk; rfl
  have hlt := (List.getElem?_eq_some_iff.1 hs).1
  rcases h.pairing.opens n hlt hs with hm | ⟨j, hnj, -, hw, h₁, h₂⟩
  · cases hm
  · refine ⟨n, j, _, hnj, h₁, hn, ?_, h.getElem?_index hw rfl, rfl, ?_⟩
    · show partnerIndex w _ = _
      rw [getD_of_some h₁]
      rfl
    · show partnerIndex w _ = _
      rw [getD_of_some h₂, ← hn]
      rfl

theorem exists_close (hi : code[k]? = some i) (hk : i.kind = .loopOpen) :
    ∃ (t : Nat) (c : Instruction), i.jumpTarget = some (t : Int) ∧ code[t]? = some c ∧
      c.kind = .loopClose ∧ c.jumpTarget = some (k : Int) := by
  obtain ⟨-, j, c, -, -, -, hj, hc, hck, hct⟩ := h.exists_partner hi hk
  exact ⟨_, c, hj, hc, hck, hct⟩

theorem exists_open (hi : code[k]? = some i) (hk : i.kind = .loopClose) :
    ∃ (t : Nat) (o : Instruction), i.jumpTarget = some (t : Int) ∧ code[t]? = some o ∧
      o.kind = .loopOpen ∧ o.jumpTarget = some (k : Int) := by
  obtain ⟨n, s, hs, hn, rfl⟩ := h.exists_symbol hi (by rw [hk]; nofun)
  obtain rfl : s = .loopClose := by cases s <;> cases hk; rfl
  obtain ⟨j, -, hw, h₁, h₂⟩ := h.pairing.closes n (List.getElem?_eq_some_iff.1 hs).1 hs
  refine ⟨_, _, ?_, h.getElem?_index hw rfl, rfl, ?_⟩
  · show partnerIndex w _ = _
    rw [getD_of_some h₁]
    rfl
  · show partnerIndex w _ = _
    rw [getD_of_some h₂, ← hn]
    rfl

end Linked

/-! ### Stretches in linked code -/

/-- A program goes on with a stretch of acts, which may be empty. -/
theorem Symbol.exists_stretch (w : List Symbol) :
    ∃ u rest, w = List.map .act u ++ rest ∧ ∀ s, rest.head? = some s → s.isAct = false := by
  induction w with
  | nil => exact ⟨[], [], rfl, nofun⟩
  | cons s w ih =>
    cases hs : s.isAct with
    | false =>
      refine ⟨[], s :: w, rfl, fun s' hs' => ?_⟩
      obtain rfl := Option.some.inj hs'
      exact hs
    | true =>
      obtain ⟨u, rest, rfl, hrest⟩ := ih
      obtain ⟨a, rfl⟩ : ∃ a, s = .act a := by cases s <;> simp_all [Symbol.isAct]
      exact ⟨a :: u, rest, rfl, hrest⟩

section
variable {w rest : List Symbol} {u : List Act} {n : Nat}

theorem take_add_of_drop (h : w.drop n = List.map .act u ++ rest) :
    w.take (n + u.length) = w.take n ++ u.map .act := by
  have hlen : u.length = (u.map Symbol.act).length := (List.length_map _).symm
  rw [List.take_add, h, hlen, List.take_left]

theorem getElem?_of_drop (h : w.drop n = List.map .act u ++ rest) :
    w[n + u.length]? = rest.head? := by
  have h₀ : (w.drop n)[u.length]? = w[n + u.length]? := List.getElem?_drop
  rw [← h₀, h, List.getElem?_append_right (by rw [List.length_map]), List.length_map, Nat.sub_self,
    List.head?_eq_getElem?]

/-- The code for a prefix that ends with a stretch stays as it is. -/
theorem Outline.extends_of_drop (h : w.drop n = List.map .act u ++ rest)
    (hrest : ∀ s, rest.head? = some s → s.isAct = false) :
    Outline.Extends (Outline.bare (w.take n ++ u.map .act)) (Outline.bare w) := by
  have hw : w = w.take n ++ u.map .act ++ rest := by
    rw [List.append_assoc, ← h, List.take_append_drop]
  cases rest with
  | nil =>
    rw [List.append_nil] at hw
    rw [← hw]
    exact .refl _
  | cons s rest =>
    have hext := Outline.extends_bare (w.take n ++ u.map .act) (hrest s rfl) rest
    rwa [← hw] at hext

theorem index_of_folded_away (hs : (Outline.of (w.take n)).stretch = none)
    (hw : w.drop n = List.map .act u ++ rest) (hr : (Fold.ofActs u).build = none) :
    index (w.take (n + u.length)) = index (w.take n) := by
  rw [take_add_of_drop hw, index, Outline.bare_acts hs, hr]
  rfl

namespace Linked
variable {pairs : BracketPairs} {code : Array Instruction} {r : Instruction}
  (h : Linked w pairs code) (hs : (Outline.of (w.take n)).stretch = none)
  (hw : w.drop n = List.map .act u ++ rest)
  (hrest : ∀ s, rest.head? = some s → s.isAct = false)
include h hs hw hrest

/-- A stretch that does not fold away stands as one instruction in the code. -/
theorem exists_build (hr : (Fold.ofActs u).build = some r) :
    ∃ i, code[index (w.take n)]? = some i ∧ i.withJump none = r ∧
      index (w.take (n + u.length)) = index (w.take n) + 1 := by
  have hbare : Outline.bare (w.take n ++ u.map .act) = (Outline.bare (w.take n)).push r := by
    rw [Outline.bare_acts hs, hr]
  have hget : (Outline.bare w)[index (w.take n)]? = some r := by
    refine (Outline.extends_of_drop hw hrest).getElem?_of_some ?_
    rw [hbare, index, Array.getElem?_push_size]
  rw [h.getElem?_bare] at hget
  obtain ⟨i, hi, hir⟩ := Option.map_eq_some_iff.1 hget
  refine ⟨i, hi, hir, ?_⟩
  rw [take_add_of_drop hw, index, hbare, Array.size_push]
  rfl

theorem exists_run (hr : (Fold.ofActs u).build = some r) :
    ∃ i, code[index (w.take n)]? = some i ∧ RunOf u i ∧
      index (w.take (n + u.length)) = index (w.take n) + 1 := by
  obtain ⟨i, hi, rfl, hindex⟩ := h.exists_build hs hw hrest hr
  have hrun := Fold.build_eq_some hr
  exact ⟨i, hi, ⟨hrun.kind, hrun.netShift, hrun.deltaAt, hrun.minOffset, hrun.head_ne,
    hrun.last_ne, hrun.unmarked⟩, hindex⟩

end Linked

end

end TapeFold
