import Mathlib.Data.List.Basic

/-!
# Rows of items

A row of items, one after the other, can be taken apart in one way only if each item can be told from what
follows it (`Separable.row`). So a text determines the lines that it consists of (`lines_inj`).
-/

namespace TapeFold

section
variable {α : Type} {F D : α → Prop} {I : List α → Prop} {x y s t : List α} {xs ys : List (List α)}
  {a d : α}

/-- What follows is nothing, or starts with an element of `D`. -/
def Follows (D : α → Prop) (s : List α) : Prop := ∀ a, s.head? = some a → D a

/-- An item can be told from what follows it, if that is nothing or starts with an element of `D`. -/
def Separable (I : List α → Prop) (D : α → Prop) : Prop :=
  ∀ ⦃x y s t : List α⦄, I x → I y → Follows D s → Follows D t → x ++ s = y ++ t → x = y ∧ s = t

theorem follows_nil : Follows D [] := nofun

theorem follows_cons (h : D a) : Follows D (a :: s) := by
  rintro _ ⟨⟩
  exact h

theorem Follows.mono (h : Follows F s) (hd : ∀ a, F a → D a) : Follows D s :=
  fun a ha => hd a (h a ha)

theorem Separable.mono {E : α → Prop} (h : Separable I D) (hd : ∀ a, E a → D a) : Separable I E :=
  fun _ _ _ _ hx hy hs ht he => h hx hy (hs.mono hd) (ht.mono hd) he

/-! ### Items -/

/-- Items without the elements that may follow. -/
theorem separable_of_forall_not : Separable (fun x => ∀ a ∈ x, ¬ D a) D := by
  intro x y s t hx hy hs ht h
  induction x generalizing y with
  | nil =>
    cases y with
    | nil => exact ⟨rfl, h⟩
    | cons b y =>
      obtain rfl : s = b :: (y ++ t) := h
      exact absurd (hs b rfl) (hy b List.mem_cons_self)
  | cons a x ih =>
    cases y with
    | nil =>
      obtain rfl : a :: (x ++ s) = t := h
      exact absurd (ht a rfl) (hx a List.mem_cons_self)
    | cons b y =>
      obtain ⟨rfl, hxy⟩ := List.cons.inj h
      obtain ⟨rfl, hst⟩ := ih (fun c hc => hx c (List.mem_cons_of_mem a hc))
        (fun c hc => hy c (List.mem_cons_of_mem a hc)) hxy
      exact ⟨rfl, hst⟩

/-- Two texts are the same up to the first `d`. -/
theorem append_cons_inj (hx : d ∉ x) (hy : d ∉ y) (h : x ++ d :: s = y ++ d :: t) :
    x = y ∧ s = t := by
  have hsep := separable_of_forall_not (D := (· = d)) (fun a ha he => hx (he ▸ ha))
    (fun a ha he => hy (he ▸ ha)) (follows_cons rfl) (follows_cons rfl) h
  exact ⟨hsep.1, (List.cons.inj hsep.2).2⟩

/-- Items that end with the only `d` that they hold. -/
theorem separable_of_last (d : α) :
    Separable (fun x => ∃ l, x = l ++ [d] ∧ d ∉ l) (fun _ => True) := by
  rintro _ _ s t ⟨x, rfl, hx⟩ ⟨y, rfl, hy⟩ - - h
  rw [List.append_assoc, List.append_assoc] at h
  obtain ⟨rfl, rfl⟩ := append_cons_inj hx hy h
  exact ⟨rfl, rfl⟩

/-- Items of which only the first element may follow an item. -/
theorem separable_of_first : Separable (fun x => ∃ a l, x = a :: l ∧ F a ∧ ∀ b ∈ l, ¬ D b) D := by
  rintro _ _ s t ⟨a, x, rfl, -, hx⟩ ⟨b, y, rfl, -, hy⟩ hs ht h
  obtain ⟨rfl, hxy⟩ := List.cons.inj h
  obtain ⟨rfl, hst⟩ := separable_of_forall_not hx hy hs ht hxy
  exact ⟨rfl, hst⟩

/-- The items may come after the same piece. -/
theorem Separable.append_left (h : Separable I D) (p : List α) :
    Separable (fun x => ∃ l, x = p ++ l ∧ I l) D := by
  rintro _ _ s t ⟨x, rfl, hx⟩ ⟨y, rfl, hy⟩ hs ht he
  rw [List.append_assoc, List.append_assoc] at he
  obtain ⟨rfl, hrest⟩ := h hx hy hs ht (List.append_cancel_left he)
  exact ⟨rfl, hrest⟩

/-! ### Rows -/

/-- A row of items that start with an element of `F` ends where something else follows. -/
theorem Separable.row (h : Separable I D) (hI : ∀ x, I x → ∃ a l, x = a :: l ∧ F a)
    (hF : ∀ a, F a → D a) (hx : ∀ x ∈ xs, I x) (hy : ∀ y ∈ ys, I y)
    (hs : Follows (fun a => D a ∧ ¬ F a) s) (ht : Follows (fun a => D a ∧ ¬ F a) t)
    (he : xs.flatten ++ s = ys.flatten ++ t) : xs = ys ∧ s = t := by
  have hfollows {xs : List (List α)} {s : List α} (hx : ∀ x ∈ xs, I x)
      (hs : Follows (fun a => D a ∧ ¬ F a) s) : Follows D (xs.flatten ++ s) := by
    cases xs with
    | nil => exact hs.mono fun a ha => ha.1
    | cons x xs =>
      obtain ⟨a, l, rfl, ha⟩ := hI x (hx x List.mem_cons_self)
      exact follows_cons (hF a ha)
  induction xs generalizing ys with
  | nil =>
    cases ys with
    | nil => exact ⟨rfl, he⟩
    | cons y ys =>
      obtain ⟨a, l, rfl, ha⟩ := hI y (hy y List.mem_cons_self)
      obtain rfl : s = a :: (l ++ ys.flatten ++ t) := he
      exact absurd ha (hs a rfl).2
  | cons x xs ih =>
    have hx' := fun z hz => hx z (List.mem_cons_of_mem x hz)
    cases ys with
    | nil =>
      obtain ⟨a, l, rfl, ha⟩ := hI x (hx x List.mem_cons_self)
      obtain rfl : a :: (l ++ xs.flatten ++ s) = t := he
      exact absurd ha (ht a rfl).2
    | cons y ys =>
      have hy' := fun z hz => hy z (List.mem_cons_of_mem y hz)
      rw [List.flatten_cons, List.flatten_cons, List.append_assoc, List.append_assoc] at he
      obtain ⟨rfl, hrows⟩ := h (hx x List.mem_cons_self) (hy y List.mem_cons_self)
        (hfollows hx' hs) (hfollows hy' ht) he
      obtain ⟨rfl, hst⟩ := ih hx' hy' hrows
      exact ⟨rfl, hst⟩

end

theorem map_mapIdx {α β γ : Type} (f : Nat → α → β) (g : β → γ) (l : List α) :
    (l.mapIdx f).map g = l.mapIdx fun k a => g (f k a) := by
  refine List.ext_getElem? fun k => ?_
  rw [List.getElem?_map, List.getElem?_mapIdx, List.getElem?_mapIdx, Option.map_map]
  rfl

/-! ### Texts -/

theorem toList_pushn (s : String) (c : Char) (n : Nat) :
    (s.pushn c n).toList = s.toList ++ List.replicate n c := by
  induction n with
  | zero => exact (List.append_nil _).symm
  | succ n ih =>
    show ((s.pushn c n).push c).toList = _
    rw [String.toList_push, ih, List.append_assoc, ← List.replicate_succ']

theorem toList_intercalate_cons (sep s : String) (l : List String) :
    (sep.intercalate (s :: l)).toList = s.toList ++ (l.map fun t => (sep ++ t).toList).flatten := by
  induction l generalizing s with
  | nil => simp
  | cons t l ih =>
    rw [String.intercalate_cons_cons, String.toList_append, ih]
    simp

/-- Every character comes from the separator or from one of the parts. -/
theorem mem_intercalate {sep : String} {l : List String} {c : Char}
    (h : c ∈ (sep.intercalate l).toList) : c ∈ sep.toList ∨ ∃ s ∈ l, c ∈ s.toList := by
  cases l with
  | nil => cases h
  | cons s l =>
    rw [toList_intercalate_cons, List.mem_append, List.mem_flatten] at h
    rcases h with h | ⟨_, hpart, h⟩
    · exact .inr ⟨s, List.mem_cons_self, h⟩
    · obtain ⟨t, ht, rfl⟩ := List.mem_map.1 hpart
      rcases List.mem_append.1 (String.toList_append ▸ h) with h | h
      · exact .inl h
      · exact .inr ⟨t, List.mem_cons_of_mem s ht, h⟩

theorem not_mem_toString_nat {c : Char} (hc : c.isDigit = false) (n : Nat) :
    c ∉ (toString n).toList := by
  intro h
  rw [Nat.toString_eq_repr, Nat.toList_repr] at h
  have hd := Nat.isDigit_of_mem_toDigits (by decide) (by decide) h
  rw [hc] at hd
  cases hd

/-- A number is written with digits and a minus. -/
theorem not_mem_toString {c : Char} (hc : c.isDigit = false) (hm : c ≠ '-') (n : Int) :
    c ∉ (toString n).toList := by
  cases n with
  | ofNat n => exact not_mem_toString_nat hc n
  | negSucc n =>
    show c ∉ ("-" ++ toString (n + 1)).toList
    rw [String.toList_append, List.mem_append, not_or]
    exact ⟨fun h => hm (List.mem_singleton.1 h), not_mem_toString_nat hc (n + 1)⟩

/-! ### Lines -/

/-- A text determines the lines that it consists of. -/
theorem lines_inj {l l' : List String} (hl : ∀ s ∈ l, '\n' ∉ s.toList)
    (hl' : ∀ s ∈ l', '\n' ∉ s.toList)
    (h : (l.map fun s => s.toList ++ ['\n']).flatten =
      (l'.map fun s => s.toList ++ ['\n']).flatten) : l = l' := by
  have hitems {l : List String} (hl : ∀ s ∈ l, '\n' ∉ s.toList) :
      ∀ x ∈ l.map fun s => s.toList ++ ['\n'], ∃ y, x = y ++ ['\n'] ∧ '\n' ∉ y := by
    intro x hx
    obtain ⟨s, hs, rfl⟩ := List.mem_map.1 hx
    exact ⟨_, rfl, hl s hs⟩
  have hfirst : ∀ x : List Char, (∃ y, x = y ++ ['\n'] ∧ '\n' ∉ y) → ∃ a z, x = a :: z ∧ True := by
    rintro _ ⟨y, rfl, -⟩
    cases y with
    | nil => exact ⟨_, _, rfl, trivial⟩
    | cons a y => exact ⟨a, y ++ ['\n'], rfl, trivial⟩
  have hrows := (separable_of_last '\n').row (s := []) (t := []) hfirst (fun _ _ => trivial)
    (hitems hl) (hitems hl') follows_nil follows_nil (by simpa using h)
  refine List.map_injective_iff.2 (fun s t hst => ?_) hrows.1
  exact String.toList_inj.1 (List.append_cancel_right hst)

/-- Lines that are parted, instead of ended, by line breaks. There is at least one, which may be empty. -/
theorem toList_intercalate_newline (l : List String) :
    ("\n".intercalate l ++ "\n").toList =
      ((if l = [] then [""] else l).map fun s => s.toList ++ ['\n']).flatten := by
  cases l with
  | nil => rfl
  | cons s l =>
    rw [if_neg (List.cons_ne_nil s l)]
    induction l generalizing s with
    | nil => simp
    | cons t l ih =>
      rw [String.intercalate_cons_cons, String.append_assoc, String.toList_append, ih]
      simp

/-- Lines that are not empty are determined by the text in which they are parted by line breaks. -/
theorem intercalate_newline_inj {l l' : List String} (hl : ∀ s ∈ l, '\n' ∉ s.toList ∧ s ≠ "")
    (hl' : ∀ s ∈ l', '\n' ∉ s.toList ∧ s ≠ "")
    (h : "\n".intercalate l ++ "\n" = "\n".intercalate l' ++ "\n") : l = l' := by
  have hbreak {l : List String} (hl : ∀ s ∈ l, '\n' ∉ s.toList ∧ s ≠ "") :
      ∀ s ∈ if l = [] then [""] else l, '\n' ∉ s.toList := by
    split
    · intro s hs
      rw [List.mem_singleton.1 hs]
      nofun
    · exact fun s hs => (hl s hs).1
  have htext := congrArg String.toList h
  rw [toList_intercalate_newline, toList_intercalate_newline] at htext
  have hsame := lines_inj (hbreak hl) (hbreak hl') htext
  split_ifs at hsame with hnil hnil' hnil'
  · rw [hnil, hnil']
  · have hempty : "" ∈ l' := hsame ▸ List.mem_cons_self
    exact absurd rfl (hl' _ hempty).2
  · have hempty : "" ∈ l := hsame ▸ List.mem_cons_self
    exact absurd rfl (hl _ hempty).2
  · exact hsame

end TapeFold
