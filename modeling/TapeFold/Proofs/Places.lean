import TapeFold.Proofs.Frame

/-!
# Places in the code

The cursor of a machine is a place in the code, and so is the exit of a loop under way (`Placed`).
Actions keep it so if the jumps of the code lead to places.
-/

namespace TapeFold.Machine

/-- The cursor, and the exit of a loop under way, are places in the code. -/
structure Placed (m : Machine) : Prop where
  cursor : ∃ k : Nat, m.cursor = k
  exit : ∀ exit, m.focus.exit? = some exit → ∃ k : Nat, exit = some (k : Int)

/-- The machine stays in its place, or comes to another one. -/
def KeepsPlace {α : Type} (x : Execution α) : Prop := Keeps (fun m m' => Placed m → Placed m') x

variable {α β : Type} {code : Array Instruction} {i : Instruction}

theorem Placed.goto (m : Machine) (k : Nat) : Placed { m with cursor := k, focus := .dispatch } :=
  ⟨⟨k, rfl⟩, nofun⟩

theorem keepsPlace_onTape (action : TapeAction α) : KeepsPlace (onTape action) :=
  keeps_onTape (fun _ _ h => ⟨h.cursor, h.exit⟩) action

theorem keepsPlace_advance : KeepsPlace advance := fun m h => by
  obtain ⟨k, hk⟩ := h.cursor
  refine ⟨⟨k + 1, ?_⟩, h.exit⟩
  show m.cursor + 1 = _
  rw [hk]
  rfl

theorem keepsPlace_jump {target : Option Int} (h : ∃ k : Nat, target = some (k : Int)) :
    KeepsPlace (jump target) := by
  obtain ⟨k, rfl⟩ := h
  exact fun m _ => .goto m k

theorem keepsPlace_modify {f : Machine → Machine} (hc : ∀ m, (f m).cursor = m.cursor)
    (hf : ∀ m, (f m).focus = m.focus) : KeepsPlace (modify f : Execution Unit) := fun m h => by
  show Placed (f m)
  refine ⟨?_, ?_⟩
  · rw [hc]
    exact h.cursor
  · rw [hf]
    exact h.exit

theorem KeepsPlace.bind {x : Execution α} {f : α → Execution β} (hx : KeepsPlace x)
    (hf : ∀ a, KeepsPlace (f a)) : KeepsPlace (x >>= f) :=
  keeps_bind (fun h h' hm => h' (h hm)) hx hf

theorem keepsPlace_passOf (F : Focus) : KeepsPlace (passOf F) := by
  cases F with
  | dispatch => exact fun _ h => h
  | iterate body exit =>
    exact (keepsPlace_onTape _).bind fun _ => keepsPlace_modify (fun _ => rfl) fun _ => rfl
  | scan d exit =>
    exact (keepsPlace_onTape _).bind fun _ => keepsPlace_modify (fun _ => rfl) fun _ => rfl

theorem keepsPlace_execute (hf : i.linearFactor = none)
    (ht : i.kind = .loopOpen ∨ i.kind = .loopClose → ∃ k : Nat, i.jumpTarget = some (k : Int)) :
    KeepsPlace (execute code i) := by
  refine keeps_execute (fun h h' hm => h' (h hm)) (fun _ _ h => ⟨h.cursor, h.exit⟩)
    keepsPlace_advance ?_ ?_ (fun ho => ?_) fun hc => keepsPlace_jump (ht (.inr hc))
  · refine KeepsPlace.bind (fun m h => ?_) fun v => keepsPlace_onTape _
    unfold read
    split <;> exact ⟨h.cursor, h.exit⟩
  · exact (keepsPlace_onTape _).bind fun _ => keepsPlace_modify (fun _ => rfl) fun _ => rfl
  · obtain ⟨k, hk⟩ := ht (.inl ho)
    refine (keepsPlace_onTape _).bind fun v => ?_
    rw [hf]
    split
    · exact keepsPlace_jump ⟨k, hk⟩
    · split
      · exact absurd ‹none = some _› nofun
      · exact fun m h => ⟨h.cursor, fun exit he => ⟨k, (Option.some.inj he).symm.trans hk⟩⟩
      · exact keepsPlace_advance

end TapeFold.Machine
