import TapeFold.Proofs.Congruence
import TapeFold.Proofs.Unchecked

/-!
# What steps leave alone

What becomes of a machine under an action is related to the machine (`Keeps`), and the action does
the same to machines that differ in their clock alone (`Untimed`). Steps of compiled code and of the
references are regular: what they settle first is still, input and output only go on, and no part of
them reads the clock (`Regular`).
-/

namespace TapeFold

namespace Machine

/-- The machine that a result leaves behind. -/
def after {α : Type} : EStateM.Result Fault Machine α → Machine
  | .ok _ m => m
  | .error _ m => m

/-- Whatever an action makes of a machine, `P` relates the two. -/
def Keeps {α : Type} (P : Machine → Machine → Prop) (x : Execution α) : Prop :=
  ∀ m, P m (after (x m))

/-- Nothing has been read, written or counted. -/
structure Still (m m' : Machine) : Prop where
  steps : m'.steps = m.steps
  maxSteps : m'.maxSteps = m.maxSteps
  input : m'.input = m.input
  output : m'.output = m.output

/-- Input has been read and output written, if anything. -/
structure GoesOn (m m' : Machine) : Prop where
  input : m'.input.rest <:+ m.input.rest
  output : m.output.bytes.toList <+: m'.output.bytes.toList

/-- The clock has not moved, and input and output go on. -/
structure Later (m m' : Machine) : Prop extends GoesOn m m' where
  steps : m'.steps = m.steps
  maxSteps : m'.maxSteps = m.maxSteps

/-- The machines are equal but for their counters. -/
structure Alike (m c : Machine) : Prop where
  tape : m.tape = c.tape
  input : m.input = c.input
  output : m.output = c.output
  eofValue : m.eofValue = c.eofValue
  cursor : m.cursor = c.cursor
  focus : m.focus = c.focus

/-- The machines are equal but for the steps counted and the limit on them. -/
structure Untimed (m c : Machine) : Prop extends Alike m c where
  linearEvaluations : m.linearEvaluations = c.linearEvaluations
  fallbackPasses : m.fallbackPasses = c.fallbackPasses
  scanPasses : m.scanPasses = c.scanPasses

/-- The parts of a counted step: what it settles first and what it does. -/
structure Regular (ready : Execution Bool) (act : Execution Unit) : Prop where
  still : Keeps Still ready
  later : Keeps Later act
  ready_untimed : Respects Untimed ready
  act_untimed : Respects Untimed act

variable {α β : Type} {P : Machine → Machine → Prop} {m m' m₁ c : Machine}

theorem Still.rfl : Still m m := ⟨Eq.refl _, Eq.refl _, Eq.refl _, Eq.refl _⟩

theorem Still.trans (h : Still m m₁) (h' : Still m₁ m') : Still m m' :=
  ⟨h'.steps.trans h.steps, h'.maxSteps.trans h.maxSteps, h'.input.trans h.input,
    h'.output.trans h.output⟩

theorem GoesOn.rfl : GoesOn m m := ⟨List.suffix_rfl, List.prefix_rfl⟩

theorem GoesOn.trans (h : GoesOn m m₁) (h' : GoesOn m₁ m') : GoesOn m m' :=
  ⟨h'.input.trans h.input, h.output.trans h'.output⟩

theorem Still.goesOn (h : Still m m') : GoesOn m m' :=
  ⟨h.input ▸ List.suffix_rfl, h.output ▸ List.prefix_rfl⟩

theorem Still.later (h : Still m m') : Later m m' := ⟨h.goesOn, h.steps, h.maxSteps⟩

theorem Later.rfl : Later m m := Still.rfl.later

theorem Later.trans (h : Later m m₁) (h' : Later m₁ m') : Later m m' :=
  ⟨h.toGoesOn.trans h'.toGoesOn, h'.steps.trans h.steps, h'.maxSteps.trans h.maxSteps⟩

/-! ### Keeping a relation -/

theorem keeps_bind {x : Execution α} {f : α → Execution β}
    (htrans : ∀ {m m₁ m'}, P m m₁ → P m₁ m' → P m m') (hx : Keeps P x) (hf : ∀ a, Keeps P (f a)) :
    Keeps P (x >>= f) := by
  intro m
  have hm := hx m
  match h : x m with
  | .ok a m₁ =>
    rw [h] at hm
    rw [bind_of_ok h]
    exact htrans hm (hf a m₁)
  | .error e m₁ =>
    rw [h] at hm
    rw [bind_of_error h]
    exact hm

theorem keeps_onTape (hP : ∀ m t, P m { m with tape := t }) (action : TapeAction α) :
    Keeps P (onTape action) := by
  intro m
  match h : action m.tape with
  | .ok a t =>
    rw [onTape_of_ok h]
    exact hP m t
  | .error (.leftOfFirst i) t =>
    rw [onTape_of_error h]
    exact hP m t

theorem still_onTape (action : TapeAction α) : Keeps Still (onTape action) :=
  keeps_onTape (fun _ _ => ⟨rfl, rfl, rfl, rfl⟩) action

theorem still_jump (target : Option Int) : Keeps Still (jump target) := by
  cases target with
  | none => exact fun _ => .rfl
  | some t => exact fun _ => ⟨rfl, rfl, rfl, rfl⟩

theorem still_advance : Keeps Still advance := fun _ => ⟨rfl, rfl, rfl, rfl⟩

theorem Keeps.later {x : Execution α} (h : Keeps Still x) : Keeps Later x := fun m => (h m).later

theorem later_readCell : Keeps Later readCell := by
  refine keeps_bind .trans (fun m => ?_) fun v => (still_onTape _).later
  unfold read
  match h : m.input.read with
  | .ok b input =>
    have hsuffix : input.rest <:+ m.input.rest := by
      unfold Input.read at h
      split at h
      · cases h
      · split at h
        · cases h
          exact List.suffix_rfl
        · cases h
          rename_i hr
          rw [hr]
          exact List.suffix_cons _ _
    cases b <;> exact ⟨⟨hsuffix, List.prefix_rfl⟩, rfl, rfl⟩
  | .error .interrupted input =>
    have hsame : input = m.input := by
      unfold Input.read at h
      split at h
      · cases h; rfl
      · split at h <;> cases h
    exact ⟨⟨hsame ▸ List.suffix_rfl, List.prefix_rfl⟩, rfl, rfl⟩

theorem Output.bytes_push (o : Output) (b : UInt8) : (o.push b).bytes = o.bytes.push b := by
  obtain ⟨buffer, stream⟩ := o
  cases stream with
  | none => rfl
  | some s =>
    simp only [Output.push, Output.bytes]
    split <;> rfl

theorem later_writeCell : Keeps Later writeCell := by
  refine keeps_bind .trans (still_onTape _).later fun v m => ⟨⟨List.suffix_rfl, ?_⟩, rfl, rfl⟩
  show _ <+: (m.output.push _).bytes.toList
  rw [Output.bytes_push, Array.toList_push]
  exact List.prefix_append _ _

/-! ### Doing the same -/

theorem congruence_alike : Congruence Alike := by
  refine .of_inward (.of_tape (fun h => h.tape) ?_ (fun h => h.cursor) (fun h => h.focus) ?_ ?_ ?_ ?_
    ?_) ?_ ?_
  · intro m c h t
    exact ⟨rfl, h.input, h.output, h.eofValue, h.cursor, h.focus⟩
  · intro m c h k
    exact ⟨h.tape, h.input, h.output, h.eofValue, rfl, h.focus⟩
  · intro m c h F
    exact ⟨h.tape, h.input, h.output, h.eofValue, h.cursor, rfl⟩
  · intro m c h
    exact ⟨h.tape, h.input, h.output, h.eofValue, h.cursor, h.focus⟩
  · intro m c h
    exact ⟨h.tape, h.input, h.output, h.eofValue, h.cursor, h.focus⟩
  · intro m c h
    exact ⟨h.tape, h.input, h.output, h.eofValue, h.cursor, h.focus⟩
  · intro m c h
    refine ⟨h.input, h.eofValue, fun input => ?_⟩
    exact ⟨h.tape, rfl, h.output, h.eofValue, h.cursor, h.focus⟩
  · intro m c b h
    exact ⟨h.tape, h.input, congrArg (·.push b) h.output, h.eofValue, h.cursor, h.focus⟩

theorem congruence_untimed : Congruence Untimed := by
  refine .of_inward (.of_tape (fun h => h.tape) ?_ (fun h => h.cursor) (fun h => h.focus) ?_ ?_ ?_ ?_
    ?_) ?_ ?_
  · intro m c h t
    exact ⟨⟨rfl, h.input, h.output, h.eofValue, h.cursor, h.focus⟩, h.linearEvaluations,
      h.fallbackPasses, h.scanPasses⟩
  · intro m c h k
    exact ⟨congruence_alike.goto h.toAlike k, h.linearEvaluations, h.fallbackPasses, h.scanPasses⟩
  · intro m c h F
    exact ⟨congruence_alike.refocus h.toAlike F, h.linearEvaluations, h.fallbackPasses,
      h.scanPasses⟩
  · intro m c h
    exact ⟨congruence_alike.linear h.toAlike, congrArg (· + 1) h.linearEvaluations,
      h.fallbackPasses, h.scanPasses⟩
  · intro m c h
    exact ⟨congruence_alike.fallback h.toAlike, h.linearEvaluations,
      congrArg (· + 1) h.fallbackPasses, h.scanPasses⟩
  · intro m c h
    exact ⟨congruence_alike.scan h.toAlike, h.linearEvaluations, h.fallbackPasses,
      congrArg (· + 1) h.scanPasses⟩
  · intro m c h
    refine ⟨h.input, h.eofValue, fun input => ?_⟩
    exact ⟨⟨h.tape, rfl, h.output, h.eofValue, h.cursor, h.focus⟩, h.linearEvaluations,
      h.fallbackPasses, h.scanPasses⟩
  · intro m c b h
    exact ⟨⟨h.tape, h.input, congrArg (·.push b) h.output, h.eofValue, h.cursor, h.focus⟩,
      h.linearEvaluations, h.fallbackPasses, h.scanPasses⟩

/-! ### Compiled code -/

variable {code : Array Instruction} {exit : Option Int}

section
variable (htrans : ∀ {m m₁ m'}, P m m₁ → P m₁ m' → P m m') (htape : ∀ m t, P m { m with tape := t })
include htrans htape

theorem keeps_settle (hrefl : ∀ m, P m m) (hjump : ∀ target, Keeps P (jump target)) :
    Keeps P (settle code) := by
  intro m
  match h : m.focus.exit? with
  | none =>
    rw [settle_of_dispatch (Focus.eq_dispatch h)]
    exact hrefl m
  | some exit =>
    rw [settle_of_loop h]
    have hleave : Keeps P (leave code exit) := by
      refine keeps_bind htrans (keeps_onTape htape _) fun v => ?_
      split
      · exact keeps_bind htrans (hjump exit) fun _ => hrefl
      · exact hrefl
    exact hleave m

/-- An instruction keeps what each part of it does. -/
theorem keeps_execute {i : Instruction} (hadvance : Keeps P advance) (hread : Keeps P readCell)
    (hwrite : Keeps P writeCell) (hopen : i.kind = .loopOpen → Keeps P (openLoop code i))
    (hclose : i.kind = .loopClose → Keeps P (jump i.jumpTarget)) : Keeps P (execute code i) := by
  have hcell {α : Type} (action : TapeAction α) : Keeps P (onTape action) :=
    keeps_onTape htape action
  unfold execute
  cases hk : i.kind with
  | run => exact keeps_bind htrans (hcell _) fun _ => keeps_bind htrans (hcell _) fun _ => hadvance
  | loopOpen => exact hopen hk
  | loopClose =>
    refine keeps_bind htrans (hcell _) fun v => ?_
    split
    · exact hclose hk
    · exact hadvance
  | read => exact keeps_bind htrans hread fun _ => hadvance
  | write => exact keeps_bind htrans hwrite fun _ => hadvance

end

theorem still_settle : Keeps Still (settle code) :=
  keeps_settle .trans (fun _ _ => ⟨rfl, rfl, rfl, rfl⟩) (fun _ => .rfl) still_jump

theorem later_openLinear (loop body : Instruction) (factor value : Int) :
    Keeps Later (openLinear loop body factor value) := by
  unfold openLinear
  split
  · exact keeps_bind .trans (still_onTape _).later fun _ =>
      keeps_bind .trans (fun m => Still.later ⟨rfl, rfl, rfl, rfl⟩) fun _ => (still_jump _).later
  · exact fun m => Still.later ⟨rfl, rfl, rfl, rfl⟩

theorem later_openLoop (loop : Instruction) : Keeps Later (openLoop code loop) := by
  refine keeps_bind .trans (still_onTape _).later fun v => ?_
  split
  · exact (still_jump _).later
  · split
    · intro m
      rw [bind_of_ok (x := get) rfl]
      cases fetch? code (m.cursor + 1) with
      | some body => exact later_openLinear _ _ _ _ m
      | none => exact .rfl
    · exact fun m => Still.later ⟨rfl, rfl, rfl, rfl⟩
    · exact still_advance.later

theorem later_execute (i : Instruction) : Keeps Later (execute code i) :=
  keeps_execute .trans (fun _ _ => Still.later ⟨rfl, rfl, rfl, rfl⟩) still_advance.later
    later_readCell later_writeCell (fun _ => later_openLoop i) fun _ => (still_jump _).later

theorem later_passOf (f : Focus) : Keeps Later (passOf f) := by
  have hmeter {f : Machine → Machine} (h : ∀ m, Still m (f m)) :
      Keeps Later (modify f : Execution Unit) := fun m => (h m).later
  cases f with
  | dispatch => exact fun _ => .rfl
  | iterate body exit =>
    exact keeps_bind .trans (still_onTape _).later fun _ => hmeter fun m => ⟨rfl, rfl, rfl, rfl⟩
  | scan step exit =>
    exact keeps_bind .trans (still_onTape _).later fun _ => hmeter fun m => ⟨rfl, rfl, rfl, rfl⟩

theorem later_act : Keeps Later (act code) := by
  intro m
  match h : m.focus.exit? with
  | none =>
    have hd := Focus.eq_dispatch h
    match hi : fetch? code m.cursor with
    | some i =>
      rw [act_of_dispatch hd hi]
      exact later_execute i m
    | none =>
      rw [act_of_none hd hi]
      exact .rfl
  | some exit =>
    rw [act_of_loop h]
    exact later_passOf _ m

theorem regular_code (code : Array Instruction) : Regular (settle code) (act code) :=
  ⟨still_settle, later_act, congruence_untimed.respects_settle code,
    congruence_untimed.respects_act code⟩

end Machine

/-! ### The references -/

namespace Reference

open Machine

variable {symbols : Array Symbol} {pairs : BracketPairs}
  {perform' : Nat → Symbol → Execution Unit}

/-- Whether there is a symbol left. -/
def ready (symbols : Array Symbol) : Execution Bool := fun m =>
  .ok symbols[m.cursor.toNat]?.isSome m

/-- Performs the symbol at the cursor and moves on. -/
def next (perform : Nat → Symbol → Execution Unit) (symbols : Array Symbol) : Execution Unit :=
  fun m =>
    match symbols[m.cursor.toNat]? with
    | none => .ok () m
    | some symbol => (do perform m.cursor.toNat symbol; advance : Execution Unit) m

theorem stepBy_eq_counted (perform' : Nat → Symbol → Execution Unit) (symbols : Array Symbol) :
    stepBy perform' symbols = counted (ready symbols) (next perform' symbols) := by
  funext m
  match h : symbols[m.cursor.toNat]? with
  | none =>
    have hready : ready symbols m = .ok false m := by
      rw [ready, h]
      rfl
    rw [stepBy_of_none h, counted_of_not_ready hready]
  | some s =>
    have hready : ready symbols m = .ok true m := by
      rw [ready, h]
      rfl
    rw [stepBy_of_some h, counted, bind_of_ok hready, if_pos rfl]
    cases ht : tick m with
    | error f m₁ => rw [bind_of_error ht, bind_of_error ht]
    | ok u m₁ =>
      have hm : m₁.cursor = m.cursor := by
        unfold tick at ht
        simp only at ht
        split at ht
        · cases ht; rfl
        · split at ht <;> cases ht
          rfl
      have hnext : next perform' symbols m₁ =
          (do perform' m.cursor.toNat s; advance : Execution Unit) m₁ := by
        rw [next, hm, h]
      rw [bind_of_ok ht, bind_of_ok ht]
      cases hp : perform' m.cursor.toNat s m₁ with
      | error f m₂ => rw [bind_of_error hp, bind_of_error (hnext.trans (bind_of_error hp))]
      | ok v m₂ =>
        rw [bind_of_ok hp, bind_of_ok (hnext.trans (bind_of_ok hp))]
        rfl

theorem step_eq_counted (symbols : Array Symbol) (pairs : BracketPairs) :
    step symbols pairs = counted (ready symbols) (next (perform pairs) symbols) :=
  step_eq_stepBy.trans (stepBy_eq_counted _ _)

theorem uncheckedStep_eq_counted (symbols : Array Symbol) (pairs : BracketPairs) :
    uncheckedStep symbols pairs = counted (ready symbols) (next (performUnchecked pairs) symbols) :=
  stepBy_eq_counted _ _

theorem still_jumpFrom (position : Nat) : Keeps Still (jumpFrom pairs position) :=
  fun _ => ⟨rfl, rfl, rfl, rfl⟩

theorem later_perform (position : Nat) (s : Symbol) : Keeps Later (perform pairs position s) := by
  cases s with
  | act a =>
    cases a with
    | inc => exact (still_onTape (Tape.add 0 1)).later
    | dec => exact (still_onTape (Tape.add 0 (-1))).later
    | left => exact (still_onTape (Tape.shift (-1))).later
    | right => exact (still_onTape (Tape.shift 1)).later
  | read => exact later_readCell
  | write => exact later_writeCell
  | loopOpen =>
    refine keeps_bind .trans (still_onTape _).later fun v => ?_
    split
    · exact (still_jumpFrom position).later
    · exact fun _ => .rfl
  | loopClose =>
    refine keeps_bind .trans (still_onTape _).later fun v => ?_
    split
    · exact (still_jumpFrom position).later
    · exact fun _ => .rfl

theorem later_performUnchecked (position : Nat) (s : Symbol) :
    Keeps Later (performUnchecked pairs position s) := by
  by_cases h : s = .act .right
  · subst h
    exact (still_onTape Tape.slide).later
  · rw [performUnchecked_of_ne h]
    exact later_perform position s

theorem untimed_performUnchecked (position : Nat) (s : Symbol) :
    Respects Untimed (performUnchecked pairs position s) := by
  by_cases h : s = .act .right
  · subst h
    exact respects_onTape (fun h => h.tape) (fun h t =>
      ⟨⟨rfl, h.input, h.output, h.eofValue, h.cursor, h.focus⟩, h.linearEvaluations,
        h.fallbackPasses, h.scanPasses⟩) Tape.slide
  · rw [performUnchecked_of_ne h]
    exact congruence_untimed.respects_perform pairs position s

section
variable {R : Machine → Machine → Prop} (hR : Inward R) (symbols : Array Symbol)
include hR

theorem respects_ready : Respects R (ready symbols) := by
  intro m c h
  rw [ready, ready, hR.cursor h]
  exact .ok _ h

theorem outcome_next (h : R m c) (hp : ∀ s, symbols[m.cursor.toNat]? = some s →
    Outcome R (perform' m.cursor.toNat s m) (perform' m.cursor.toNat s c)) :
    Outcome R (next perform' symbols m) (next perform' symbols c) := by
  unfold next
  rw [← hR.cursor h]
  cases hs : symbols[m.cursor.toNat]? with
  | none => exact .ok () h
  | some s => exact (hp s hs).bind fun _ => hR.respects_advance

theorem respects_next (hp : ∀ n s, Respects R (perform' n s)) :
    Respects R (next perform' symbols) :=
  fun m c h => outcome_next hR symbols h fun s _ => hp _ s m c h

end

theorem regular_of (hl : ∀ n s, Keeps Later (perform' n s))
    (hp : ∀ n s, Respects Untimed (perform' n s)) (symbols : Array Symbol) :
    Regular (ready symbols) (next perform' symbols) := by
  refine ⟨fun _ => .rfl, fun m => ?_, respects_ready congruence_untimed.toInward symbols,
    respects_next congruence_untimed.toInward symbols hp⟩
  unfold next
  cases symbols[m.cursor.toNat]? with
  | none => exact .rfl
  | some s => exact keeps_bind .trans (hl _ s) (fun _ => still_advance.later) m

theorem regular_step (symbols : Array Symbol) (pairs : BracketPairs) :
    Regular (ready symbols) (next (perform pairs) symbols) :=
  regular_of later_perform (congruence_untimed.respects_perform pairs) symbols

theorem regular_uncheckedStep (symbols : Array Symbol) (pairs : BracketPairs) :
    Regular (ready symbols) (next (performUnchecked pairs) symbols) :=
  regular_of later_performUnchecked untimed_performUnchecked symbols

end Reference

end TapeFold
