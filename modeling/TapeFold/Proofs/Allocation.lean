import TapeFold.Proofs.Lockstep
import TapeFold.Proofs.Marking

/-!
# The memory size is only an initial allocation

Two tapes with the same cells, one of which began with more room, stay so under every operation, and
the size of the roomier one is the larger of its initial size and the size of the other
(`Tape.Roomier`). Machines on such tapes run in lockstep, so no part of a run depends on the memory
size but the size of the tape (`memorySize_only_allocates`).
-/

namespace TapeFold

/-- The tape `u` is `t` except that it began with `k` cells. -/
structure Tape.Roomier (k : Nat) (t u : Tape) : Prop where
  pointer : u.pointer = t.pointer
  cell : ∀ i, u.cell i = t.cell i
  size : u.size = max k t.size

/-- The machines are the same but for the room on their tapes. -/
inductive Machine.Roomier (k : Nat) : Machine → Machine → Prop
  | mk {m : Machine} {u : Tape} (h : m.tape.Roomier k u) : Roomier k m { m with tape := u }

/-- The settings with another memory size. -/
def Settings.withMemory (s : Settings) (size : Int) : Settings :=
  { s with memorySize := size }

/-- The endings are the same but for the number of cells on their tapes: missing cells are zero. -/
structure SameButSize (e e' : Ending) : Prop where
  halt : e'.halt = e.halt
  machine : e'.machine = { e.machine with tape := e'.machine.tape }
  pointer : e'.machine.tape.pointer = e.machine.tape.pointer
  cell : ∀ i, e'.machine.tape.cell i = e.machine.tape.cell i

/-- The runs that differ in their memory size alone come to the same end but for the size of the
tape. That is the larger of what it was at first and of what the run needs. -/
def OnlyAllocates (run : Int → Except BracketError Ending) : Prop :=
  ∃ needed : Nat, ∀ m₁ m₂ : Int, 1 ≤ m₁ → 1 ≤ m₂ → ∃ e₁ e₂,
    run m₁ = .ok e₁ ∧ run m₂ = .ok e₂ ∧ SameButSize e₁ e₂ ∧
    (e₁.machine.tape.size : Int) = max (min m₁ Tape.maxInitialSize) needed ∧
    (e₂.machine.tape.size : Int) = max (min m₂ Tape.maxInitialSize) needed

open Machine

/-! ### Tapes -/

namespace Tape
variable {k : Nat} {t u : Tape}

theorem roomier_blank {size : Int} (h : 1 ≤ size) :
    Roomier (min size maxInitialSize).toNat (blank 1) (blank size) := by
  have hcell (n : Int) (i : Int) : (blank n).cell i = 0 := by
    unfold cell
    split
    · rfl
    · simp only [blank, Array.getD_eq_getD_getElem?, Array.getElem?_replicate]
      split <;> rfl
  have hmax : maxInitialSize = 1024 * 1024 := rfl
  refine ⟨rfl, fun i => by rw [hcell, hcell], ?_⟩
  simp only [Tape.size, blank, Array.size_replicate, hmax]
  omega

namespace Roomier
variable (h : Roomier k t u)
include h

theorem here : u.cell u.pointer = t.cell t.pointer := by
  rw [h.pointer, h.cell]

theorem grow (n : Nat) : Roomier k (t.grow n) (u.grow n) := by
  refine ⟨?_, fun i => ?_, ?_⟩
  · rw [pointer_grow, pointer_grow, h.pointer]
  · rw [cell_grow, cell_grow, h.cell]
  · simp only [size_grow, h.size]
    omega

theorem moved (a : Int) : Roomier k (t.moved a) (u.moved a) := by
  refine ⟨?_, h.cell, h.size⟩
  rw [pointer_moved, pointer_moved, h.pointer]

theorem put (hp : 0 ≤ t.pointer) (v : Int) : Roomier k (t.put v) (u.put v) := by
  have hp' : 0 ≤ u.pointer := by
    rw [h.pointer]
    exact hp
  refine ⟨?_, fun i => ?_, ?_⟩
  · rw [pointer_put, pointer_put, h.pointer]
  · rw [cell_put hp, cell_put hp', h.pointer, h.cell]
  · simp only [size_put, h.size, h.pointer]
    omega

theorem bump (n : Nat) (d : Int) : Roomier k (t.bump n d) (u.bump n d) := by
  refine ⟨?_, fun i => ?_, ?_⟩
  · rw [pointer_bump, pointer_bump, h.pointer]
  · rw [cell_bump, cell_bump, h.cell]
  · simp only [size_bump, h.size]
    omega

theorem spread {ds : List Int} (hd : ds ≠ []) (n : Nat) (f : Int) :
    Roomier k (t.spread ds n f) (u.spread ds n f) := by
  refine ⟨?_, fun i => ?_, ?_⟩
  · rw [pointer_spread, pointer_spread, h.pointer]
  · rw [cell_spread hd, cell_spread hd, h.cell]
  · simp only [size_spread hd, h.size]
    omega

end Roomier

/-! ### Operations -/

theorem respects_get (k : Nat) : Respects (Roomier k) get := by
  intro t u h
  rcases Int.lt_or_le t.pointer 0 with hp | hp
  · rw [get_of_neg hp, get_of_neg (h.pointer ▸ hp), h.pointer]
    exact .error _ h
  · rw [get_of_nonneg hp, get_of_nonneg (h.pointer ▸ hp), h.here, h.pointer]
    exact .ok _ (h.grow _)

theorem respects_set (k : Nat) (v : Int) : Respects (Roomier k) (set v) := by
  intro t u h
  rcases Int.lt_or_le t.pointer 0 with hp | hp
  · rw [set_of_neg hp, set_of_neg (h.pointer ▸ hp), h.pointer]
    exact .error _ h
  · rw [set_of_nonneg hp, set_of_nonneg (h.pointer ▸ hp)]
    exact .ok _ (h.put hp v)

theorem respects_add (k : Nat) (position delta : Int) : Respects (Roomier k) (add position delta) := by
  intro t u h
  rcases Int.lt_or_le (t.pointer + position) 0 with hp | hp
  · rw [add_of_neg hp, add_of_neg (h.pointer ▸ hp), h.pointer]
    exact .error _ h
  · rw [add_of_nonneg hp, add_of_nonneg (h.pointer ▸ hp), h.pointer]
    exact .ok _ (h.bump _ delta)

theorem respects_apply (k : Nat) (ds : List Int) (base f : Int) (low : Option Int) :
    Respects (Roomier k) (apply ds base f low) := by
  intro t u h
  have hsame := applyFault?_congr h.pointer ds base low
  cases hfault : t.applyFault? ds base low with
  | some j =>
    rw [apply_of_fault f hfault, apply_of_fault f (hsame.trans hfault)]
    exact .error _ h
  | none =>
    by_cases hd : ds = []
    · subst hd
      rw [apply_nil f hfault, apply_nil f (hsame.trans hfault)]
      exact .ok _ h
    · rw [apply_of_ne_nil f hd hfault, apply_of_ne_nil f hd (hsame.trans hfault), h.pointer]
      exact .ok _ (h.spread hd _ f)

theorem respects_shift (k : Nat) (a : Int) : Respects (Roomier k) (shift a) := by
  intro t u h
  rcases Int.lt_or_le 0 a with ha | ha
  · rcases Int.lt_or_le (t.pointer + a) 0 with hp | hp
    · rw [shift_of_left ha hp, shift_of_left ha (h.pointer ▸ hp), h.pointer]
      exact .error _ (h.moved a)
    · rw [shift_of_pos ha hp, shift_of_pos ha (h.pointer ▸ hp), h.pointer]
      exact .ok _ ((h.moved a).grow _)
  · rw [shift_of_nonpos ha, shift_of_nonpos ha]
    exact .ok _ (h.moved a)

end Tape

/-! ### Machines and runs -/

namespace Machine
variable {k : Nat} {m c : Machine}

theorem Roomier.tape (h : Roomier k m c) : m.tape.Roomier k c.tape := by
  cases h with
  | mk h => exact h

theorem respects_onTape_roomier {α : Type} {action : TapeAction α}
    (ha : Respects (Tape.Roomier k) action) : Respects (Roomier k) (onTape action) := by
  refine respects_onTape_of (fun h => h.tape) ?_ ha
  rintro m _ ⟨_⟩ t u htu
  exact .mk (m := { m with tape := t }) htu

/-- Programs cannot tell how much room there is. -/
theorem lockstep_roomier (k : Nat) : Lockstep (Roomier k) where
  cursor := by
    rintro m _ ⟨-⟩
    rfl
  focus := by
    rintro m _ ⟨-⟩
    rfl
  steps := by
    rintro m _ ⟨-⟩
    rfl
  maxSteps := by
    rintro m _ ⟨-⟩
    rfl
  goto := by
    rintro m _ ⟨h⟩ cursor
    exact .mk (m := { m with cursor }) h
  refocus := by
    rintro m _ ⟨h⟩ focus
    exact .mk (m := { m with focus }) h
  linear := by
    rintro m _ ⟨h⟩
    exact .mk (m := { m with linearEvaluations := m.linearEvaluations + 1 }) h
  fallback := by
    rintro m _ ⟨h⟩
    exact .mk (m := { m with fallbackPasses := m.fallbackPasses + 1 }) h
  scan := by
    rintro m _ ⟨h⟩
    exact .mk (m := { m with scanPasses := m.scanPasses + 1 }) h
  ticked := by
    rintro m _ ⟨h⟩
    exact .mk (m := m.ticked) h
  flushed := by
    rintro m _ ⟨h⟩
    exact .mk (m := { m with output := m.output.flush }) h
  onGet := respects_onTape_roomier (Tape.respects_get k)
  onSet v := respects_onTape_roomier (Tape.respects_set k v)
  onAdd position delta := respects_onTape_roomier (Tape.respects_add k position delta)
  onApply ds base f low := respects_onTape_roomier (Tape.respects_apply k ds base f low)
  onShift a := respects_onTape_roomier (Tape.respects_shift k a)
  onRead := by
    refine respects_read ?_
    rintro m _ ⟨h⟩
    exact ⟨rfl, rfl, fun input => .mk (m := { m with input }) h⟩
  onWrite v := by
    rintro m _ ⟨h⟩
    exact .ok () (.mk (m := { m with output := m.output.push (byteOf v) }) h)

theorem roomier_start (settings : Settings) (input : Input) (output : Output) {size : Int}
    (h : 1 ≤ size) :
    Roomier (min size Tape.maxInitialSize).toNat (.start (settings.withMemory 1) input output)
      (.start (settings.withMemory size) input output) :=
  .mk (Tape.roomier_blank h)

end Machine

section
variable {k k' : Nat} {e e₁ e₂ : Ending}

/-- What is the same as one ending but for the room is the same but for the size of the tape. -/
theorem sameButSize (h₁ : e.Match (Roomier k) e₁) (h₂ : e.Match (Roomier k') e₂) :
    SameButSize e₁ e₂ := by
  have hhalt : e₂.halt = e₁.halt := h₂.halt.symm.trans h₁.halt
  obtain ⟨m₁, halt₁⟩ := e₁
  obtain ⟨m₂, halt₂⟩ := e₂
  obtain ⟨-, h₁⟩ := h₁
  obtain ⟨-, h₂⟩ := h₂
  rcases h₁ with ⟨h₁⟩
  rcases h₂ with ⟨h₂⟩
  refine ⟨hhalt, rfl, ?_, ?_⟩
  · exact h₂.pointer.trans h₁.pointer.symm
  · intro i
    exact (h₂.cell i).trans (h₁.cell i).symm

/-- What a run needs is what it comes to from a single cell. -/
theorem onlyAllocates_of_match {run : Int → Except BracketError Ending}
    (h : ∀ size : Int, 1 ≤ size → ∃ e e', run 1 = .ok e ∧ run size = .ok e' ∧
      e.Match (Roomier (min size Tape.maxInitialSize).toNat) e') : OnlyAllocates run := by
  obtain ⟨e, -, he, -, -⟩ := h 1 (Int.le_refl 1)
  have hsize {m : Int} (hm : 1 ≤ m) {e' : Ending}
      (hmatch : e.Match (Roomier (min m Tape.maxInitialSize).toNat) e') :
      (e'.machine.tape.size : Int) = max (min m Tape.maxInitialSize) e.machine.tape.size := by
    have hmax : Tape.maxInitialSize = 1024 * 1024 := rfl
    rw [hmatch.machine.tape.size, hmax]
    omega
  refine ⟨e.machine.tape.size, ?_⟩
  intro m₁ m₂ h₁ h₂
  obtain ⟨e', e₁, he₁', he₁, hmatch₁⟩ := h m₁ h₁
  obtain rfl : e = e' := Except.ok.inj (he.symm.trans he₁')
  obtain ⟨e', e₂, he₂', he₂, hmatch₂⟩ := h m₂ h₂
  obtain rfl : e = e' := Except.ok.inj (he.symm.trans he₂')
  exact ⟨e₁, e₂, he₁, he₂, sameButSize hmatch₁ hmatch₂, hsize h₁ hmatch₁, hsize h₂ hmatch₂⟩

end

/-- Runs of a balanced program that differ in their memory size alone end in the same way, having
read, written and counted the same, and with the same value in every cell; the tape is as large as it
was at first, or as the run needs. -/
theorem memorySize_only_allocates (text : String) (hb : Symbol.Balanced (Symbol.ofText text))
    (settings : Settings) (input : Input) (output : Output) (patience : Nat) :
    OnlyAllocates (fun size => runSource text (settings.withMemory size) input output patience) ∧
    OnlyAllocates (fun size =>
      runReference text (settings.withMemory size) input output patience) := by
  obtain ⟨code, pairs, hpairs, -, hcompile⟩ := Program.exists_compile hb
  constructor
  · refine onlyAllocates_of_match fun size hsize => ?_
    have hstart := roomier_start settings input output hsize
    have hrun (s : Settings) : runSource text s input output patience =
        .ok (run (Program.withMarks code s.linear).code patience (.start s input output)) := by
      rw [runSource, hcompile]
      rfl
    exact ⟨_, _, hrun _, hrun _, (lockstep_roomier _).run _ patience hstart⟩
  · refine onlyAllocates_of_match fun size hsize => ?_
    exact (lockstep_roomier _).reference hpairs patience (roomier_start settings input output hsize)

/-- Copying two to the right needs four cells: one cell grows to them, and eight stay eight. -/
theorem onlyAllocates_in_growing_copy : ∃ e₁ e₂,
    runSource "++[->+>+<<]>>>." (Settings.withMemory {} 1) (.ofBytes []) .buffered 20 = .ok e₁ ∧
    runSource "++[->+>+<<]>>>." (Settings.withMemory {} 8) (.ofBytes []) .buffered 20 = .ok e₂ ∧
    SameButSize e₁ e₂ ∧ e₁.halt = .finished ∧ e₁.machine.tape.size = 4 ∧
    e₂.machine.tape.size = 8 := by
  obtain ⟨⟨needed, hsame⟩, -⟩ :=
    memorySize_only_allocates "++[->+>+<<]>>>." (by decide) {} (.ofBytes []) .buffered 20
  obtain ⟨e₁, e₂, he₁, he₂, h, h₁, h₂⟩ := hsame 1 8 (by decide) (by decide)
  have hend : (runSource "++[->+>+<<]>>>." (Settings.withMemory {} 1) (.ofBytes []) .buffered 20).map
      (fun e => (e.halt, e.machine.tape.size)) = .ok (.finished, 4) := by decide +kernel
  have he₁' : runSource "++[->+>+<<]>>>." (Settings.withMemory {} 1) (.ofBytes []) .buffered 20 =
      .ok e₁ := he₁
  rw [he₁'] at hend
  obtain ⟨hhalt, hsize⟩ := Prod.mk.inj (Except.ok.inj hend)
  refine ⟨e₁, e₂, he₁, he₂, h, hhalt, hsize, ?_⟩
  have hmax : Tape.maxInitialSize = 1024 * 1024 := rfl
  rw [hsize] at h₁
  omega

end TapeFold
