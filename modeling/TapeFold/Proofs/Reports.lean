import TapeFold.Proofs.Streaming
import TapeFold.Proofs.Brackets
import TapeFold.Proofs.Safety
import TapeFold.Proofs.Options

/-!
# What is reported of a run

A run whose input is never interrupted faults only by leaving the tape or by exceeding its limit
(`raised_of_runSource`, `raised_of_runReference`). What is reported of a program are positions in its
text, and what is reported of a failed run are the steps, the pointer and a place in the code, so all of
it can be written if these numbers are short (`Journal.legible_ofCompilation`,
`Journal.legible_ofEnding`).
-/

namespace TapeFold

open Machine

/-- A fault that a program can bring about by itself. -/
inductive Fault.Raised : Fault → Prop
  | underflow (i : Int) : Raised (.underflow i)
  | stepLimit (limit : Int) : Raised (.stepLimit limit)

/-- At the level that is usual, the numbers of what is reported can be written. -/
def Journal.Legible (events : List Event) : Prop :=
  ∀ e ∈ events, e.isReported .warning = true → e.isWritable = true

/-! ### Faults -/

namespace Machine

/-- On input that is never interrupted, the action leaves it so or brings about a fault by itself. -/
def Tame {α : Type} (x : Execution α) : Prop :=
  ∀ m, m.input.allowance = none →
    match x m with
    | .ok _ m' => m'.input.allowance = none
    | .error f _ => f.Raised

variable {α β : Type} {m : Machine} {f : Fault} {step : Execution Bool}

theorem Tame.bind {x : Execution α} {y : α → Execution β} (hx : Tame x) (hy : ∀ a, Tame (y a)) :
    Tame (x >>= y) := by
  intro m hm
  have h := hx m hm
  match hr : x m with
  | .ok a m' =>
    rw [hr] at h
    rw [bind_of_ok hr]
    exact hy a m' h
  | .error f m' =>
    rw [hr] at h
    rw [bind_of_error hr]
    exact h

theorem tame_pure (a : α) : Tame (pure a : Execution α) := fun _ hm => hm

theorem tame_modify {g : Machine → Machine} (hg : ∀ m, (g m).input = m.input) :
    Tame (modify g : Execution Unit) := fun m hm => by
  show (g m).input.allowance = none
  rw [hg, hm]

theorem tame_onTape (action : TapeAction α) : Tame (onTape action) := by
  intro m hm
  match hr : action m.tape with
  | .ok a t =>
    rw [onTape_of_ok hr]
    exact hm
  | .error (.leftOfFirst i) t =>
    rw [onTape_of_error hr]
    exact .underflow i

theorem tame_tick : Tame tick := by
  intro m hm
  rcases tick_cases m with h | ⟨limit, -, h⟩
  · rw [h]
    exact hm
  · rw [h]
    exact .stepLimit limit

theorem tame_read : Tame read := by
  intro m hm
  have hne : m.input.allowance ≠ some 0 := by
    rw [hm]
    nofun
  have hmap : m.input.allowance.map (· - 1) = none := by
    rw [hm]
    rfl
  unfold read Input.read
  rw [if_neg hne]
  cases m.input.rest with
  | nil => exact hmap
  | cons b rest => exact hmap

theorem tame_perform (pairs : BracketPairs) (position : Nat) (s : Symbol) :
    Tame (Reference.perform pairs position s) := by
  have hjump : Tame (Reference.jumpFrom pairs position) := tame_modify fun _ => rfl
  cases s with
  | act a =>
    cases a with
    | inc => exact tame_onTape (Tape.add 0 1)
    | dec => exact tame_onTape (Tape.add 0 (-1))
    | left => exact tame_onTape (Tape.shift (-1))
    | right => exact tame_onTape (Tape.shift 1)
  | read => exact tame_read.bind fun v => tame_onTape _
  | write => exact (tame_onTape _).bind fun v => tame_modify fun _ => rfl
  | loopOpen =>
    refine (tame_onTape _).bind fun v => ?_
    split
    · exact hjump
    · exact tame_pure ()
  | loopClose =>
    refine (tame_onTape _).bind fun v => ?_
    split
    · exact hjump
    · exact tame_pure ()

theorem tame_reference (symbols : Array Symbol) (pairs : BracketPairs) :
    Tame (Reference.step symbols pairs) := by
  refine Tame.bind (fun _ hm => hm) fun m => ?_
  simp only
  split
  · exact tame_pure false
  · refine tame_tick.bind fun _ => (tame_perform pairs _ _).bind fun _ => ?_
    exact (tame_modify fun _ => rfl).bind fun _ => tame_pure true

theorem Tame.raised_of_iterate (h : Tame step) (hm : m.input.allowance = none) {k : Nat}
    (hf : (iterate step k m).halt = .faulted f) : f.Raised := by
  induction k generalizing m with
  | zero => cases hf
  | succ k ih =>
    have hstep := h m hm
    simp only [iterate] at hf
    generalize step m = r at hstep hf
    cases r with
    | error f' m' =>
      cases hf
      exact hstep
    | ok b m' =>
      cases b with
      | false => cases hf
      | true => exact ih hstep hf

end Machine

section
variable {text : String} {settings : Settings} {input : Input} {bytes : List UInt8} {output : Output}
  {patience : Nat} {e : Ending} {f : Fault}

theorem exists_iterate_of_runSource (h : runSource text settings input output patience = .ok e) :
    ∃ p k, Program.compile text settings.linear = .ok p ∧
      (iterate (step p.code) k (.start settings input output)).close = e := by
  obtain ⟨p, hp, he⟩ := exists_of_map_eq_ok h
  exact ⟨p, _, hp, he⟩

theorem raised_of_runSource (h : runSource text settings (.ofBytes bytes) output patience = .ok e)
    (hf : e.halt = .faulted f) : f.Raised := by
  obtain ⟨p, k, hp, rfl⟩ := exists_iterate_of_runSource h
  rw [Ending.halt_close] at hf
  obtain ⟨hs, hm⟩ := Program.shape_and_marked_of_compile hp
  have hstart := orderly_start p.code settings (.ofBytes bytes) output
  rcases hstart.fault_of_iterate hs hm hf with ⟨i, rfl⟩ | ⟨limit, -, rfl⟩ | ⟨-, ha⟩
  · exact .underflow i
  · exact .stepLimit limit
  · exact absurd rfl ha

theorem raised_of_runReference
    (h : runReference text settings (.ofBytes bytes) output patience = .ok e)
    (hf : e.halt = .faulted f) : f.Raised := by
  obtain ⟨pairs, -, rfl⟩ := exists_of_map_eq_ok h
  rw [Ending.halt_close] at hf
  exact (tame_reference _ pairs).raised_of_iterate rfl hf

end

/-! ### Numbers -/

theorem Text.Short.mono {n k : Int} (h : Short n) (hk : k.natAbs ≤ n.natAbs) : Short k :=
  Nat.lt_of_le_of_lt hk h

theorem Symbol.length_ofText_le (text : String) : (ofText text).length ≤ text.length := by
  refine Nat.le_trans (List.length_filterMap_le _ _) ?_
  exact (List.takeWhile_prefix _).length_le

namespace Program
variable {text : String} {linear : Bool} {p : Program} {d : Diagnostic}

theorem size_le_length (h : compile text linear = .ok p) : p.code.size ≤ text.length := by
  obtain ⟨code, hcode, rfl⟩ := exists_link h
  obtain ⟨pairs, -, hlinked⟩ := exists_linked hcode
  have hsize : (withMarks code linear).code.size = code.size := by
    rw [← Array.size_map (f := Instruction.unmarked), map_unmarked_withMarks hlinked]
  rw [hsize, hlinked.size]
  exact Nat.le_trans (Outline.index_le_length _) (Symbol.length_ofText_le text)

theorem index_lt_of_mem_diagnostics (h : compile text linear = .ok p) (hd : d ∈ p.diagnostics) :
    d.index < p.code.size := by
  obtain ⟨code, hcode, rfl⟩ := exists_link h
  cases linear with
  | false => cases hd
  | true =>
    obtain ⟨hdelta, -⟩ := (mem_diagnostics_markLinear rfl).1 hd
    obtain ⟨body, hb, -⟩ := controlDeltaAt?_eq_some_iff.1 hdelta
    obtain ⟨loop, hl, -⟩ := soleRun?_eq_some_iff.1 hb
    exact (Array.getElem?_eq_some_iff.1 hl).1.trans_eq Array.size_mapIdx.symm

end Program

/-- The cursor of a run never leaves the code, which is no longer than the text. -/
theorem cursor_of_runSource {text : String} {settings : Settings} {input : Input} {output : Output}
    {patience : Nat} {e : Ending} (h : runSource text settings input output patience = .ok e) :
    0 ≤ e.machine.cursor ∧ e.machine.cursor ≤ text.length := by
  obtain ⟨p, k, hp, rfl⟩ := exists_iterate_of_runSource h
  obtain ⟨hs, hm⟩ := Program.shape_and_marked_of_compile hp
  have hcursor := ((orderly_start p.code settings input output).of_iterate hs hm k).cursor_mem
  have hsize := Program.size_le_length hp
  rw [Ending.cursor_close]
  omega

/-- A position that is reported is one in the text. -/
theorem Symbol.Faulty.exists_lt_length {w : List Symbol} {e : BracketError} (h : Faulty w e) :
    ∃ k, k < w.length ∧ (e = .unopened (some (k : Int)) ∨ e = .unclosed k) := by
  cases h with
  | @unopened k h => exact ⟨k, (List.getElem?_eq_some_iff.1 h.closes).1, .inl rfl⟩
  | @unclosed k _ h => exact ⟨k, (List.getElem?_eq_some_iff.1 h.opens).1, .inr rfl⟩

/-! ### Events -/

/-- An event can be written just if its numbers are short. -/
theorem Event.isWritable_iff {e : Event} :
    e.isWritable = true ↔ ∀ d ∈ e.details, ∀ n, d.2 = .number n → Text.Short n := by
  refine List.all_eq_true.trans (forall₂_congr fun d _ => ?_)
  cases d.2 with
  | text s => exact iff_of_true rfl nofun
  | number n =>
    refine Text.isOk_writeInteger_iff.trans ⟨?_, fun h => h n rfl⟩
    rintro h _ ⟨⟩
    exact h

namespace Journal
variable {text : String} {linear : Bool} {l l' : List Event} {e : Ending} {p : Program} {d : Draft}
  {k : Nat}

theorem legible_append_iff : Legible (l ++ l') ↔ Legible l ∧ Legible l' := List.forall_mem_append

theorem Legible.append (h : Legible l) (h' : Legible l') : Legible (l ++ l') :=
  legible_append_iff.2 ⟨h, h'⟩

/-- Events of a lower level are not reported. -/
theorem legible_of_level (h : ∀ e ∈ l, e.level = .debug) : Legible l := by
  intro e he hr
  rw [Event.isReported, h e he] at hr
  cases hr

section
variable (h : Text.Short text.length)
include h

/-- Positions in a text can be written if its length can. -/
theorem legible_of_le
    (hle : ∀ e ∈ l, ∀ d ∈ e.details, ∀ n, d.2 = .number n → 0 ≤ n ∧ n ≤ text.length) :
    Legible l := fun e he _ => Event.isWritable_iff.2 fun d hd n hn =>
  have hn := hle e he d hd n hn
  h.mono (by omega)

theorem legible_diagnostics (hp : Program.compile text linear = .ok p)
    (body : Diagnostic → String) :
    Legible (p.diagnostics.map fun d => .endlessLoop d (body d)) := by
  refine legible_of_le h fun e he f hf n hn => ?_
  obtain ⟨d, hd, rfl⟩ := List.mem_map.1 he
  have hlt := Program.index_lt_of_mem_diagnostics hp hd
  have hle := Program.size_le_length hp
  simp only [Event.details, List.mem_cons, List.not_mem_nil, or_false] at hf
  rcases hf with rfl | rfl <;> cases hn
  omega

theorem legible_unopened (hk : k < (Symbol.ofText text).length) : Legible [.unopened k] := by
  have hlength := Symbol.length_ofText_le text
  refine legible_of_le h fun e he f hf n hn => ?_
  cases List.mem_singleton.1 he
  cases List.mem_singleton.1 hf
  cases hn
  omega

theorem legible_unclosed (hk : k < (Symbol.ofText text).length)
    (hd : Draft.addAll {} 0 ((Symbol.ofText text).take k) = .ok d) :
    Legible [.unclosed d.flush.code.size k] := by
  have hlength := Symbol.length_ofText_le text
  have hsize := Draft.size_flush_of_addAll hd
  have hle := Outline.index_le_length ((Symbol.ofText text).take k)
  rw [List.length_take] at hle
  refine legible_of_le h fun e he f hf n hn => ?_
  cases List.mem_singleton.1 he
  simp only [Event.details, List.mem_cons, List.not_mem_nil, or_false] at hf
  rcases hf with rfl | rfl <;> cases hn <;> omega

/-- A program is reported on with positions in its text and places in its code. -/
theorem legible_ofCompilation : Legible (ofCompilation text linear) := by
  cases hp : Program.compile text linear with
  | ok p =>
    simp only [ofCompilation, hp]
    refine (legible_diagnostics h hp _).append (legible_of_level fun e he => ?_)
    cases List.mem_singleton.1 he
    rfl
  | error b =>
    have hfaulty := Symbol.pairBrackets_eq_error_iff.1 (Program.compile_eq_error_iff.1 hp)
    obtain ⟨k, hk, rfl | rfl⟩ := hfaulty.exists_lt_length
    · simp only [ofCompilation, hp]
      exact legible_unopened h hk
    · simp only [ofCompilation, hp]
      split
      · rename_i d hd
        exact legible_unclosed h hk hd
      · exact legible_of_level nofun

end

theorem legible_ofBlank (size : Int) : Legible (ofBlank size) := by
  refine legible_of_level fun e he => ?_
  rw [ofBlank] at he
  split at he
  · cases List.mem_singleton.1 he
    rfl
  · cases he

theorem legible_ofReference (first last : Machine) : Legible (ofReference first last) := by
  refine legible_of_level fun e he => ?_
  obtain ⟨k, -, rfl⟩ := List.mem_map.1 he
  rfl

/-- A failed run is reported on with its steps, its pointer and a place in the code. -/
theorem legible_failed_iff {cursor pointer : Int} {steps : Nat} {message : String} :
    Legible [.failed cursor pointer steps message] ↔
      Text.Short cursor ∧ Text.Short pointer ∧ Text.Short steps := by
  have hsole : Legible [.failed cursor pointer steps message] ↔
      (Event.failed cursor pointer steps message).isWritable = true :=
    List.forall_mem_singleton.trans ⟨fun h => h rfl, fun h _ => h⟩
  rw [hsole, Event.isWritable_iff]
  simp [Event.details]

theorem legible_ofEnding (hc : Text.Short e.machine.cursor)
    (hp : Text.Short e.machine.tape.pointer) (hs : Text.Short e.machine.steps) :
    Legible (ofEnding e) := by
  unfold ofEnding
  split
  · refine legible_of_level fun ev he => ?_
    cases List.mem_singleton.1 he
    rfl
  · split
    · exact legible_failed_iff.2 ⟨hc, hp, hs⟩
    · exact legible_failed_iff.2 ⟨hc, hp, hs⟩
    · exact legible_of_level nofun
  · exact legible_of_level nofun

/-- A run that has exceeded its limit with too many steps cannot be reported on. -/
theorem not_legible_ofEnding {limit : Int} (hh : e.halt = .faulted (.stepLimit limit))
    (hs : ¬ Text.Short e.machine.steps) : ¬ Legible (ofEnding e) := by
  simp only [ofEnding, hh]
  exact fun h => hs (legible_failed_iff.1 h).2.2

end Journal

end TapeFold
