import TapeFold.Proofs.Listings

/-!
# Listings as documents

Programs with the same listing in JSON or in YAML look alike (`Listing.Json.alike_of_render`,
`Listing.Yaml.alike_of_render`): each section can be told from what follows it, and its items from one
another. So a listing identifies the compiled program in each layout (`Listing.program_eq_of_render`).
-/

namespace TapeFold

namespace Listing
variable {text text' : String} {linear linear' : Bool} {p q : Program} {i j : Instruction}
  {k depth : Nat} {c : Char} {s t : List Char} {xs ys : List String} {e e' : Entry}

/-! ### Documents -/

/-- A character that no key and no text of an entry holds. -/
def Entry.Lacks (e : Entry) (c : Char) : Prop :=
  ∀ f ∈ e, c ∉ f.1.toList ∧ ∀ s, f.2 = .scalar (.text s) → c ∉ s.toList

theorem Entry.Lacks.append (h : e.Lacks c) (h' : e'.Lacks c) : Entry.Lacks (e ++ e') c :=
  List.forall_mem_append.2 ⟨h, h'⟩

theorem lacks_field {key : String} (h : c ∉ key.toList) (n : Int) :
    Entry.Lacks [field key n] c := by
  intro f hf
  rw [List.mem_singleton.1 hf]
  exact ⟨h, nofun⟩

theorem lacks_textField {key text : String} (h : c ∉ key.toList) (ht : c ∉ text.toList) :
    Entry.Lacks [textField key text] c := by
  intro f hf
  rw [List.mem_singleton.1 hf]
  refine ⟨h, ?_⟩
  rintro s ⟨⟩
  exact ht

theorem lacks_optionalField {key : String} (h : c ∉ key.toList) (o : Option Int) :
    Entry.Lacks (optionalField key o) c := by
  cases o with
  | none => nofun
  | some n => exact lacks_field h n

theorem lacks_numbers {key : String} (h : c ∉ key.toList) (ns : List Int) :
    Entry.Lacks [(key, .numbers ns)] c := by
  intro f hf
  rw [List.mem_singleton.1 hf]
  exact ⟨h, nofun⟩

theorem lacks_instructionEntry (hs : c ∉ i.source.toList) (hc : c = '\n' ∨ c = '\x7d') (k : Nat) :
    Entry.Lacks (instructionEntry k i) c := by
  have hkey (key : String) (h : key ∈ ["index", "kind", "source", "deltas", "base_offset",
      "net_shift", "min_offset", "jump_target", "linear_factor", "scan_step"]) :
      c ∉ key.toList := by
    revert key
    rcases hc with rfl | rfl <;> decide
  have hname : c ∉ i.kind.name.toList := by
    cases i.kind <;> rcases hc with rfl | rfl <;> decide
  have hfirst : Entry.Lacks [field "index" k, textField "kind" i.kind.name] c :=
    (lacks_field (hkey _ (by decide)) _).append (lacks_textField (hkey _ (by decide)) hname)
  have hrun : Entry.Lacks (if i.kind = .run then
      [textField "source" i.source, ("deltas", .numbers i.deltas),
        field "base_offset" i.baseOffset, field "net_shift" i.netShift] ++
        optionalField "min_offset" i.minOffset
      else []) c := by
    split
    · have heffect := (lacks_numbers (hkey "deltas" (by decide)) i.deltas).append
        ((lacks_field (hkey "base_offset" (by decide)) i.baseOffset).append
          (lacks_field (hkey "net_shift" (by decide)) i.netShift))
      exact ((lacks_textField (hkey _ (by decide)) hs).append heffect).append
        (lacks_optionalField (hkey _ (by decide)) _)
    · nofun
  exact (((hfirst.append hrun).append (lacks_optionalField (hkey _ (by decide)) _)).append
    (lacks_optionalField (hkey _ (by decide)) _)).append
    (lacks_optionalField (hkey _ (by decide)) _)

theorem lacks_diagnosticEntry (hc : c = '\n' ∨ c = '\x7d') (d : Diagnostic) :
    Entry.Lacks (diagnosticEntry d) c := by
  have hkey (key : String) (h : key ∈ ["index", "control_delta", "message"]) :
      c ∉ key.toList := by
    revert key
    rcases hc with rfl | rfl <;> decide
  exact (lacks_field (hkey _ (by decide)) _).append ((lacks_field (hkey _ (by decide)) _).append
    (lacks_textField (hkey _ (by decide)) (not_mem_message hc d)))

theorem kind_eq_of_name {a b : Kind} (h : a.name = b.name) : a = b := by
  cases a <;> cases b <;> first | rfl | exact absurd h (by decide)

/-- The entry of an instruction starts with its index and its kind, to which a run adds its source. -/
theorem exists_instructionEntry (k : Nat) (i : Instruction) : ∃ rest,
    instructionEntry k i = field "index" k :: textField "kind" i.kind.name :: rest ∧
      (i.kind = .run → ∃ more, rest = textField "source" i.source :: more) := by
  refine ⟨_, by simp only [instructionEntry, List.cons_append, List.nil_append]; rfl, fun hk => ?_⟩
  rw [if_pos hk]
  exact ⟨_, rfl⟩

/-! ### Sections -/

def instructionEntries (p : Program) : List Entry := p.code.toList.mapIdx instructionEntry

def diagnosticEntries (p : Program) : List Entry := p.diagnostics.map diagnosticEntry

theorem lacks_of_mem_instructionEntries (hp : Program.compile text linear = .ok p)
    (he : e ∈ instructionEntries p) (hc : c = '\n' ∨ c = '\x7d') : e.Lacks c := by
  obtain ⟨k, i, hi, rfl⟩ := getElem?_of_mem_mapIdx he
  have hforeign : Foreign c := by rcases hc with rfl | rfl <;> decide
  exact lacks_instructionEntry (foreign_source hp hi hforeign) hc k

theorem lacks_of_mem_diagnosticEntries (he : e ∈ diagnosticEntries p)
    (hc : c = '\n' ∨ c = '\x7d') : e.Lacks c := by
  obtain ⟨d, -, rfl⟩ := List.mem_map.1 he
  exact lacks_diagnosticEntry hc d

theorem ne_nil_of_mem_instructionEntries (he : e ∈ instructionEntries p) : e ≠ [] := by
  obtain ⟨k, i, -, rfl⟩ := getElem?_of_mem_mapIdx he
  obtain ⟨rest, hrest, -⟩ := exists_instructionEntry k i
  rw [hrest]
  exact List.cons_ne_nil _ _

theorem ne_nil_of_mem_diagnosticEntries (he : e ∈ diagnosticEntries p) : e ≠ [] := by
  obtain ⟨d, -, rfl⟩ := List.mem_map.1 he
  exact List.cons_ne_nil _ _

/-- Programs look alike if their entries, and the numbers of their linear loops, are shown alike. -/
theorem alike_of_sections {β γ : Type} {f : Entry → β} {g : Int → γ}
    (hcode : (instructionEntries p).map f = (instructionEntries q).map f)
    (hf : ∀ k i j, p.code[k]? = some i → q.code[k]? = some j →
      f (instructionEntry k i) = f (instructionEntry k j) →
      i.kind = j.kind ∧ (i.kind = .run → i.source = j.source))
    (hlinear : (p.linearLoops.map Int.ofNat).map g = (q.linearLoops.map Int.ofNat).map g)
    (hnotes : (diagnosticEntries p).map f = (diagnosticEntries q).map f) : p.Alike q := by
  rw [instructionEntries, instructionEntries, map_mapIdx, map_mapIdx] at hcode
  refine .of_mapIdx hcode hf ?_ ?_
  · have hnil := congrArg (· = []) hlinear
    simpa using hnil
  · have hnil := congrArg (· = []) hnotes
    simpa [diagnosticEntries] using hnil

namespace Json

/-! ### JSON -/

/-- What stands before an item to part it from the item before. -/
def parting (depth : Nat) : List Char := ',' :: '\n' :: (indent depth).toList

/-- An item of an array that is not the first one. -/
def item (depth : Nat) (x : String) : List Char := parting depth ++ x.toList

/-- The end of a block that is not empty. -/
def ending (depth : Nat) (closing : String) : List Char :=
  '\n' :: (indent (depth - 1) ++ closing).toList

theorem toList_block_cons (opening closing : String) (depth : Nat) (x : String) (xs : List String) :
    (block opening closing depth (x :: xs)).toList = opening.toList ++ '\n' ::
      ((indent depth ++ x).toList ++ ((xs.map (item depth)).flatten ++ ending depth closing)) := by
  have hrow : xs.map (item depth) =
      (xs.map (indent depth ++ ·)).map fun y => (",\n" ++ y).toList := by
    rw [List.map_map]
    exact List.map_congr_left fun y _ => by simp [item, parting]
  rw [block, if_neg (List.cons_ne_nil x xs), List.map_cons, hrow]
  simp only [String.toList_append, toList_intercalate_cons, ending, List.append_assoc]
  rfl

/-- But for its first character, an array is a row of items. -/
theorem toList_array_cons (depth : Nat) (x : String) (xs : List String) :
    ∃ l, (array depth (x :: xs)).toList = '[' :: '\n' :: l ∧
      ',' :: '\n' :: l = ((x :: xs).map (item depth)).flatten ++ ending depth "]" := by
  refine ⟨_, toList_block_cons "[" "]" depth x xs, ?_⟩
  simp [item, parting]

/-- Items can be told from one another, and from the end of their array. -/
theorem items_inj {I : List Char → Prop} (hI : Separable I fun c => c = ',' ∨ c = '\n')
    (hx : ∀ x ∈ xs, I x.toList) (hy : ∀ y ∈ ys, I y.toList)
    (h : (xs.map (item depth)).flatten ++ (ending depth "]" ++ s) =
      (ys.map (item depth)).flatten ++ (ending depth "]" ++ t)) : xs = ys ∧ s = t := by
  have hitems {zs : List String} (hz : ∀ z ∈ zs, I z.toList) :
      ∀ z ∈ zs.map (item depth), ∃ m, z = parting depth ++ m ∧ I m := by
    intro z hz'
    obtain ⟨z, hmem, rfl⟩ := List.mem_map.1 hz'
    exact ⟨z.toList, rfl, hz z hmem⟩
  have hfirst (z : List Char) :
      (∃ m, z = parting depth ++ m ∧ I m) → ∃ c u, z = c :: u ∧ c = ',' := by
    rintro ⟨m, rfl, -⟩
    exact ⟨_, _, rfl, rfl⟩
  -- a comma parts the items, and a line break ends them
  have hfollows (u : List Char) :
      Follows (fun c => (c = ',' ∨ c = '\n') ∧ ¬ c = ',') (ending depth "]" ++ u) := by
    rw [ending, List.cons_append]
    exact follows_cons ⟨.inr rfl, by decide⟩
  obtain ⟨hsame, hst⟩ := (hI.append_left (parting depth)).row hfirst
    (fun _ => .inl) (hitems hx) (hitems hy) (hfollows s) (hfollows t) h
  refine ⟨List.map_injective_iff.2 (fun z z' hz => ?_) hsame, List.append_cancel_left hst⟩
  exact String.toList_inj.1 (List.append_cancel_left hz)

/-- An array can be told from what follows it, and its items from one another. -/
theorem array_inj {I : List Char → Prop} (hI : Separable I fun c => c = ',' ∨ c = '\n')
    (hx : ∀ x ∈ xs, I x.toList) (hy : ∀ y ∈ ys, I y.toList)
    (h : (array depth xs).toList ++ s = (array depth ys).toList ++ t) : xs = ys ∧ s = t := by
  have hempty : (array depth []).toList = ['[', ']'] := by simp [array, block]
  cases xs with
  | nil =>
    cases ys with
    | nil => exact ⟨rfl, List.append_cancel_left h⟩
    | cons y ys =>
      obtain ⟨l, hl, -⟩ := toList_array_cons depth y ys
      rw [hempty, hl] at h
      cases (List.cons.inj (List.cons.inj h).2).1
  | cons x xs =>
    obtain ⟨l, hl, hrow⟩ := toList_array_cons depth x xs
    cases ys with
    | nil =>
      rw [hempty, hl] at h
      cases (List.cons.inj (List.cons.inj h).2).1
    | cons y ys =>
      obtain ⟨l', hl', hrow'⟩ := toList_array_cons depth y ys
      rw [hl, hl'] at h
      have hrest := (List.cons.inj (List.cons.inj h).2).2
      have hrows : ((x :: xs).map (item depth)).flatten ++ (ending depth "]" ++ s) =
          ((y :: ys).map (item depth)).flatten ++ (ending depth "]" ++ t) := by
        rw [← List.append_assoc, ← hrow, ← List.append_assoc, ← hrow']
        exact congrArg (',' :: '\n' :: ·) hrest
      exact items_inj hI hx hy hrows

theorem not_mem_indent (hc : Foreign c) (depth : Nat) : c ∉ (indent depth).toList := by
  rw [indent, toList_pushn, List.mem_append, List.mem_replicate]
  rintro (h | ⟨-, rfl⟩)
  · cases h
  · exact hc.2 (by decide)

/-- What a block holds in front of its closing bracket. -/
theorem exists_block (opening closing : String) (depth : Nat) (items : List String) :
    ∃ l, (block opening closing depth items).toList = l ++ closing.toList ∧
      ∀ c, Foreign c → c ≠ '\n' → c ∉ opening.toList → (∀ x ∈ items, c ∉ x.toList) → c ∉ l := by
  by_cases hnil : items = []
  · refine ⟨opening.toList, ?_, fun c _ _ ho _ => ho⟩
    rw [block, if_pos hnil, String.toList_append]
  · refine ⟨(opening ++ "\n" ++ ",\n".intercalate (items.map (indent depth ++ ·)) ++ "\n" ++
      indent (depth - 1)).toList, ?_, fun c hc hn ho hx => ?_⟩
    · rw [block, if_neg hnil, String.toList_append]
    · have hbreak : c ∉ "\n".toList := fun h => hn (List.mem_singleton.1 h)
      have hitems : c ∉ (",\n".intercalate (items.map (indent depth ++ ·))).toList := by
        intro h
        rcases mem_intercalate h with h | ⟨x, hmem, h⟩
        · rcases List.mem_cons.1 h with rfl | h
          · exact hc.2 (by decide)
          · exact hbreak h
        · obtain ⟨y, hy, rfl⟩ := List.mem_map.1 hmem
          rcases List.mem_append.1 (String.toList_append ▸ h) with h | h
          · exact not_mem_indent hc depth h
          · exact hx y hy h
      simp only [String.toList_append, List.mem_append, not_or]
      exact ⟨⟨⟨⟨ho, hbreak⟩, hitems⟩, hbreak⟩, not_mem_indent hc (depth - 1)⟩

/-- A brace that no text holds does not occur in a value. -/
theorem not_mem_value {v : Value} (h : ∀ s, v = .scalar (.text s) → '\x7d' ∉ s.toList) :
    '\x7d' ∉ (value depth v).toList := by
  have hforeign : Foreign '\x7d' := by decide
  match v with
  | .scalar (.int n) => exact hforeign.not_mem_int n
  | .scalar (.text s) =>
    simp only [value, scalar, String.toList_append, List.mem_append, not_or]
    exact ⟨⟨by decide, h s rfl⟩, by decide⟩
  | .numbers ns =>
    obtain ⟨l, hl, hlacks⟩ := exists_block "[" "]" depth (ns.map toString)
    rw [value, numbers, array, hl, List.mem_append, not_or]
    refine ⟨hlacks _ hforeign (by decide) (by decide) fun x hx => ?_, by decide⟩
    obtain ⟨n, -, rfl⟩ := List.mem_map.1 hx
    exact hforeign.not_mem_int n

/-- An entry ends with the only closing brace that it holds. -/
theorem exists_entry (h : e.Lacks '\x7d') (depth : Nat) :
    ∃ l, (entry depth e).toList = l ++ ['\x7d'] ∧ '\x7d' ∉ l := by
  obtain ⟨l, hl, hlacks⟩ := exists_block "\x7b" "\x7d" depth
    (e.map fun f => key f.1 ++ value (depth + 1) f.2)
  refine ⟨l, hl, hlacks _ (by decide) (by decide) (by decide) fun x hx => ?_⟩
  obtain ⟨f, hf, rfl⟩ := List.mem_map.1 hx
  obtain ⟨hkey, hvalue⟩ := h f hf
  simp only [key, String.toList_append, List.mem_append, not_or]
  exact ⟨⟨⟨by decide, hkey⟩, by decide⟩, not_mem_value hvalue⟩

/-- The text of the entry of an instruction tells its kind and the source of a run. -/
theorem entry_inj (h : entry depth (instructionEntry k i) = entry depth (instructionEntry k j))
    (hi : '"' ∉ i.source.toList) (hj : '"' ∉ j.source.toList) :
    i.kind = j.kind ∧ (i.kind = .run → i.source = j.source) := by
  obtain ⟨rest, hrest, hrun⟩ := exists_instructionEntry k i
  obtain ⟨rest', hrest', hrun'⟩ := exists_instructionEntry k j
  have hname (kind : Kind) : '"' ∉ kind.name.toList := by cases kind <;> decide
  have hquote : "\"".toList = ['"'] := rfl
  have htext := congrArg String.toList h
  rw [hrest, hrest', entry, entry, object, object] at htext
  simp only [List.map_cons, toList_block_cons, List.flatten_cons, item, key, value, scalar,
    textField, String.toList_append, List.append_assoc, List.append_cancel_left_eq,
    List.cons.injEq, true_and, hquote, List.cons_append, List.nil_append] at htext
  obtain ⟨hnames, hmore⟩ := append_cons_inj (hname i.kind) (hname j.kind) htext
  have hkind := kind_eq_of_name (String.toList_inj.1 hnames)
  refine ⟨hkind, fun hk => ?_⟩
  obtain ⟨more, rfl⟩ := hrun hk
  obtain ⟨more', rfl⟩ := hrun' (hkind ▸ hk)
  simp only [List.map_cons, List.flatten_cons, item, textField, String.toList_append,
    List.append_assoc, List.append_cancel_left_eq, List.cons.injEq, true_and, hquote,
    List.cons_append, List.nil_append] at hmore
  exact String.toList_inj.1 (append_cons_inj hi hj hmore).1

theorem exists_of_mem_entries {es : List Entry} (hes : ∀ e ∈ es, e.Lacks '\x7d') {x : String}
    (hx : x ∈ es.map (entry depth)) : ∃ l, x.toList = l ++ ['\x7d'] ∧ '\x7d' ∉ l := by
  obtain ⟨e, he, rfl⟩ := List.mem_map.1 hx
  exact exists_entry (hes e he) depth

theorem of_mem_numbers {ns : List Int} {x : String} (hx : x ∈ ns.map toString) :
    ∀ c ∈ x.toList, ¬ (c = ',' ∨ c = '\n') := by
  obtain ⟨n, -, rfl⟩ := List.mem_map.1 hx
  rintro c hc (rfl | rfl)
  · exact not_mem_toString (by decide) (by decide) n hc
  · exact not_mem_toString (by decide) (by decide) n hc

/-- An array of entries can be told from what follows it. -/
theorem entries_inj {es es' : List Entry} (hes : ∀ e ∈ es, e.Lacks '\x7d')
    (hes' : ∀ e ∈ es', e.Lacks '\x7d')
    (h : (sectionText depth (.entries es)).toList ++ s =
      (sectionText depth (.entries es')).toList ++ t) :
    es.map (entry (depth + 1)) = es'.map (entry (depth + 1)) ∧ s = t :=
  array_inj ((separable_of_last '\x7d').mono fun _ _ => trivial)
    (fun _ => exists_of_mem_entries hes) (fun _ => exists_of_mem_entries hes') h

/-- So can an array of numbers. -/
theorem numbers_inj {ns ns' : List Int}
    (h : (sectionText depth (.numbers ns)).toList ++ s =
      (sectionText depth (.numbers ns')).toList ++ t) :
    ns.map toString = ns'.map toString ∧ s = t :=
  array_inj separable_of_forall_not (fun _ => of_mem_numbers) (fun _ => of_mem_numbers) h

theorem alike_of_render (hp : Program.compile text linear = .ok p)
    (hq : Program.compile text' linear' = .ok q)
    (h : render (document p) = render (document q)) : p.Alike q := by
  have htext := congrArg String.toList h
  simp only [render, document, object, List.map_cons, List.map_nil, toList_block_cons, item,
    List.flatten_cons, List.flatten_nil, String.toList_append, List.append_assoc, List.cons_append,
    List.append_cancel_left_eq, List.cons.injEq, true_and] at htext
  have hcode {text : String} {linear : Bool} {p : Program}
      (hp : Program.compile text linear = .ok p) : ∀ e ∈ instructionEntries p, e.Lacks '\x7d' :=
    fun _ he => lacks_of_mem_instructionEntries hp he (.inr rfl)
  have hnotes (p : Program) : ∀ e ∈ diagnosticEntries p, e.Lacks '\x7d' :=
    fun _ he => lacks_of_mem_diagnosticEntries he (.inr rfl)
  obtain ⟨hinstructions, htext⟩ := entries_inj (hcode hp) (hcode hq) htext
  simp only [List.append_cancel_left_eq] at htext
  obtain ⟨hlinear, htext⟩ := numbers_inj htext
  simp only [List.append_cancel_left_eq] at htext
  obtain ⟨-, htext⟩ := numbers_inj htext
  simp only [List.append_cancel_left_eq] at htext
  obtain ⟨hdiagnostics, -⟩ := entries_inj (hnotes p) (hnotes q) htext
  have hquote : Foreign '"' := by decide
  exact alike_of_sections hinstructions
    (fun k i j hi hj h => entry_inj h (foreign_source hp hi hquote) (foreign_source hq hj hquote))
    hlinear hdiagnostics

end Json

namespace Yaml

/-! ### YAML -/

/-- The lines of a section that shows items, each of which has some lines. -/
def rows (key : String) (items : List (List String)) : List String :=
  if items = [] then [key ++ ": []"] else (key ++ ":") :: items.flatten

/-- The first line of an item. -/
def Opens (l : String) : Prop := l.toList.head? = some '-'

/-- A line that does not go on with an item. -/
def Outer (l : String) : Prop := l.toList.head? ≠ some ' '

/-- The lines of an item. -/
def IsItem (x : List String) : Prop := ∃ a l, x = a :: l ∧ Opens a ∧ ∀ b ∈ l, ¬ Outer b

/-- The items of a row of numbers. -/
def numberItems (ns : List Int) : List (List String) := ns.map fun n => ["- " ++ toString n]

theorem numberLines_eq (key : String) (ns : List Int) :
    numberLines key ns = rows key (numberItems ns) := by
  simp only [numberLines, rows, numberItems, List.map_eq_nil_iff, ← List.flatMap_def,
    ← List.map_eq_flatMap]

theorem sectionLines_entries (key : String) (es : List Entry) :
    sectionLines key (.entries es) = rows key (es.map entryLines) := by
  cases es with
  | nil => rfl
  | cons e es =>
    rw [rows, List.map_cons, if_neg (List.cons_ne_nil _ _), ← List.map_cons, ← List.flatMap_def]
    rfl

/-- What follows the items of a section is no line of an item. -/
theorem follows_rows (key : String) (hkey : ∃ c l, key.toList = c :: l ∧ c ≠ ' ' ∧ c ≠ '-')
    (items : List (List String)) (s : List String) :
    Follows (fun l => Outer l ∧ ¬ Opens l) (rows key items ++ s) := by
  obtain ⟨c, l, hc, hblank, hminus⟩ := hkey
  have hstart (rest : String) : Outer (key ++ rest) ∧ ¬ Opens (key ++ rest) := by
    simp [Outer, Opens, hc, hblank, hminus]
  rw [rows]
  split
  · exact follows_cons (hstart ": []")
  · exact follows_cons (hstart ":")

/-- A section can be told from what follows it, and its items from one another. -/
theorem rows_inj {key : String} {xs ys : List (List String)} {s t : List String}
    (hx : ∀ x ∈ xs, IsItem x) (hy : ∀ y ∈ ys, IsItem y)
    (hs : Follows (fun l => Outer l ∧ ¬ Opens l) s) (ht : Follows (fun l => Outer l ∧ ¬ Opens l) t)
    (h : rows key xs ++ s = rows key ys ++ t) : xs = ys ∧ s = t := by
  have hhead : key ++ ": []" ≠ key ++ ":" := by
    intro he
    have htext := congrArg String.toList he
    simp at htext
  by_cases hnil : xs = []
  · by_cases hnil' : ys = []
    · rw [hnil, hnil'] at h ⊢
      exact ⟨rfl, List.append_cancel_left h⟩
    · rw [rows, rows, if_pos hnil, if_neg hnil'] at h
      exact absurd (List.cons.inj h).1 hhead
  · by_cases hnil' : ys = []
    · rw [rows, rows, if_neg hnil, if_pos hnil'] at h
      exact absurd (List.cons.inj h).1.symm hhead
    · rw [rows, rows, if_neg hnil, if_neg hnil'] at h
      refine separable_of_first.row (fun x ⟨a, l, hal, ha, _⟩ => ⟨a, l, hal, ha⟩) ?_ hx hy hs ht
        (List.cons.inj h).2
      intro l ho hblank
      cases ho.symm.trans hblank

theorem isItem_itemLines {l : List String} (h : l ≠ []) : IsItem (itemLines l) := by
  cases l with
  | nil => exact absurd rfl h
  | cons first rest =>
    refine ⟨_, _, rfl, ?_, fun b hb => ?_⟩
    · simp [Opens]
    · obtain ⟨x, -, rfl⟩ := List.mem_map.1 hb
      simp [Outer]

theorem fieldLines_ne_nil (key : String) (v : Value) : fieldLines key v ≠ [] := by
  match v with
  | .scalar s => exact List.cons_ne_nil _ _
  | .numbers ns =>
    rw [fieldLines, numberLines]
    split <;> exact List.cons_ne_nil _ _

theorem scalar_inj {a b : String} (ha : '\'' ∉ a.toList) (hb : '\'' ∉ b.toList)
    (h : scalar (.text a) = scalar (.text b)) : a = b := by
  have htext := congrArg String.toList h
  simp only [scalar] at htext
  split_ifs at htext
  · simpa [String.toList_inj] using htext
  · exact absurd (by rw [← htext]; simp) hb
  · exact absurd (by rw [htext]; simp) ha
  · exact String.toList_inj.1 htext

theorem textLine_inj {key a b : String} (ha : '\'' ∉ a.toList) (hb : '\'' ∉ b.toList)
    (h : "  " ++ (key ++ ": " ++ scalar (.text a)) = "  " ++ (key ++ ": " ++ scalar (.text b))) :
    a = b := by
  refine scalar_inj ha hb (String.toList_inj.1 ?_)
  have htext := congrArg String.toList h
  simpa only [String.toList_append, List.append_assoc, List.append_cancel_left_eq] using htext

/-- The lines of the entry of an instruction tell its kind and the source of a run. -/
theorem entryLines_inj (h : entryLines (instructionEntry k i) = entryLines (instructionEntry k j))
    (hi : '\'' ∉ i.source.toList) (hj : '\'' ∉ j.source.toList) :
    i.kind = j.kind ∧ (i.kind = .run → i.source = j.source) := by
  obtain ⟨rest, hrest, hrun⟩ := exists_instructionEntry k i
  obtain ⟨rest', hrest', hrun'⟩ := exists_instructionEntry k j
  have hquote (kind : Kind) : '\'' ∉ kind.name.toList := by cases kind <;> decide
  rw [hrest, hrest'] at h
  simp only [entryLines, List.flatMap_cons, field, textField, fieldLines, List.cons_append,
    List.nil_append, itemLines, List.map_cons, List.cons.injEq, true_and] at h
  obtain ⟨hname, hmore⟩ := h
  have hkind := kind_eq_of_name (textLine_inj (hquote i.kind) (hquote j.kind) hname)
  refine ⟨hkind, fun hk => ?_⟩
  obtain ⟨more, rfl⟩ := hrun hk
  obtain ⟨more', rfl⟩ := hrun' (hkind ▸ hk)
  exact textLine_inj hi hj (List.cons.inj hmore).1

/-! ### Lines of a document -/

theorem not_mem_rows {key : String} {items : List (List String)} (hkey : '\n' ∉ key.toList)
    (h : ∀ x ∈ items, ∀ l ∈ x, '\n' ∉ l.toList) : ∀ l ∈ rows key items, '\n' ∉ l.toList := by
  intro l hl
  rw [rows] at hl
  split at hl
  · rw [List.mem_singleton.1 hl]
    simpa using hkey
  · rcases List.mem_cons.1 hl with rfl | hl
    · simpa using hkey
    · obtain ⟨x, hx, hl⟩ := List.mem_flatten.1 hl
      exact h x hx l hl

theorem not_mem_numberItems (ns : List Int) :
    ∀ x ∈ numberItems ns, ∀ l ∈ x, '\n' ∉ l.toList := by
  intro x hx l hl
  obtain ⟨n, -, rfl⟩ := List.mem_map.1 hx
  rw [List.mem_singleton.1 hl, String.toList_append, List.mem_append, not_or]
  exact ⟨by decide, not_mem_toString (by decide) (by decide) n⟩

theorem not_mem_fieldLines {key : String} {v : Value} (hkey : '\n' ∉ key.toList)
    (hvalue : ∀ s, v = .scalar (.text s) → '\n' ∉ s.toList) :
    ∀ l ∈ fieldLines key v, '\n' ∉ l.toList := by
  match v with
  | .numbers ns =>
    rw [fieldLines, numberLines_eq]
    exact not_mem_rows hkey (not_mem_numberItems ns)
  | .scalar s =>
    intro l hl
    have hscalar : '\n' ∉ (scalar s).toList := by
      match s with
      | .int n => exact not_mem_toString (by decide) (by decide) n
      | .text s =>
        rw [scalar]
        split
        · simpa using hvalue s rfl
        · exact hvalue s rfl
    rw [fieldLines, List.mem_singleton] at hl
    rw [hl]
    simpa using ⟨hkey, hscalar⟩

theorem not_mem_entryLines (h : e.Lacks '\n') : ∀ l ∈ entryLines e, '\n' ∉ l.toList := by
  have hfields : ∀ l ∈ e.flatMap fun f => fieldLines f.1 f.2, '\n' ∉ l.toList := by
    intro l hl
    obtain ⟨f, hf, hl⟩ := List.mem_flatMap.1 hl
    exact not_mem_fieldLines (h f hf).1 (h f hf).2 l hl
  rw [entryLines]
  generalize (e.flatMap fun f => fieldLines f.1 f.2) = lines at hfields
  cases lines with
  | nil => nofun
  | cons first rest =>
    intro l hl
    rcases List.mem_cons.1 hl with rfl | hl
    · simpa using hfields first List.mem_cons_self
    · obtain ⟨x, hx, rfl⟩ := List.mem_map.1 hl
      simpa using hfields x (List.mem_cons_of_mem first hx)

theorem not_mem_entryItems {es : List Entry} (hes : ∀ e ∈ es, e.Lacks '\n') :
    ∀ x ∈ es.map entryLines, ∀ l ∈ x, '\n' ∉ l.toList := by
  intro x hx
  obtain ⟨e, he, rfl⟩ := List.mem_map.1 hx
  exact not_mem_entryLines (hes e he)

theorem isItem_of_mem_numbers {ns : List Int} {x : List String} (hx : x ∈ numberItems ns) :
    IsItem x := by
  obtain ⟨n, -, rfl⟩ := List.mem_map.1 hx
  exact ⟨_, [], rfl, by simp [Opens], nofun⟩

theorem isItem_of_mem_entries {es : List Entry} (hes : ∀ e ∈ es, e ≠ []) {x : List String}
    (hx : x ∈ es.map entryLines) : IsItem x := by
  obtain ⟨e, he, rfl⟩ := List.mem_map.1 hx
  refine isItem_itemLines fun hnil => ?_
  cases e with
  | nil => exact hes [] he rfl
  | cons f e => exact fieldLines_ne_nil _ _ (List.append_eq_nil_iff.1 hnil).1

/-- The lines of a document. -/
def lines (d : Document) : List String := d.flatMap fun s => sectionLines s.1 s.2

theorem toList_render (d : Document) :
    (render d).toList = ((lines d).map fun s => s.toList ++ ['\n']).flatten := by
  rw [render, String.toList_join, List.flatMap_def, List.map_map, lines]
  refine congrArg List.flatten (List.map_congr_left fun l _ => ?_)
  simp

theorem lines_document (p : Program) : lines (document p) =
    rows "instructions" ((instructionEntries p).map entryLines) ++
      (rows "linear_loops" (numberItems (p.linearLoops.map Int.ofNat)) ++
        (rows "scan_loops" (numberItems (p.scanLoops.map Int.ofNat)) ++
          (rows "diagnostics" ((diagnosticEntries p).map entryLines) ++ []))) := by
  simp only [lines, document, List.flatMap_cons, List.flatMap_nil, sectionLines_entries]
  simp only [sectionLines, numberLines_eq]
  rfl

theorem not_mem_lines (hp : Program.compile text linear = .ok p) :
    ∀ l ∈ lines (document p), '\n' ∉ l.toList := by
  have hcode : ∀ x ∈ (instructionEntries p).map entryLines, ∀ l ∈ x, '\n' ∉ l.toList :=
    not_mem_entryItems fun _ he => lacks_of_mem_instructionEntries hp he (.inl rfl)
  have hnotes : ∀ x ∈ (diagnosticEntries p).map entryLines, ∀ l ∈ x, '\n' ∉ l.toList :=
    not_mem_entryItems fun _ he => lacks_of_mem_diagnosticEntries he (.inl rfl)
  rw [lines_document]
  exact List.forall_mem_append.2 ⟨not_mem_rows (by decide) hcode,
    List.forall_mem_append.2 ⟨not_mem_rows (by decide) (not_mem_numberItems _),
      List.forall_mem_append.2 ⟨not_mem_rows (by decide) (not_mem_numberItems _),
        List.forall_mem_append.2 ⟨not_mem_rows (by decide) hnotes, nofun⟩⟩⟩⟩

theorem alike_of_render (hp : Program.compile text linear = .ok p)
    (hq : Program.compile text' linear' = .ok q)
    (h : render (document p) = render (document q)) : p.Alike q := by
  have htext := congrArg String.toList h
  rw [toList_render, toList_render] at htext
  have hlines := lines_inj (not_mem_lines hp) (not_mem_lines hq) htext
  rw [lines_document, lines_document] at hlines
  have hcode (p : Program) : ∀ x ∈ (instructionEntries p).map entryLines, IsItem x :=
    fun _ => isItem_of_mem_entries fun _ => ne_nil_of_mem_instructionEntries
  have hnotes (p : Program) : ∀ x ∈ (diagnosticEntries p).map entryLines, IsItem x :=
    fun _ => isItem_of_mem_entries fun _ => ne_nil_of_mem_diagnosticEntries
  have hnumbers (ns : List Int) : ∀ x ∈ numberItems ns, IsItem x := fun _ => isItem_of_mem_numbers
  have hlinear := follows_rows "linear_loops" ⟨_, _, rfl, by decide, by decide⟩
  have hscan := follows_rows "scan_loops" ⟨_, _, rfl, by decide, by decide⟩
  have hlast := follows_rows "diagnostics" ⟨_, _, rfl, by decide, by decide⟩
  obtain ⟨hinstructions, hlines⟩ :=
    rows_inj (hcode p) (hcode q) (hlinear _ _) (hlinear _ _) hlines
  obtain ⟨hloops, hlines⟩ := rows_inj (hnumbers _) (hnumbers _) (hscan _ _) (hscan _ _) hlines
  obtain ⟨-, hlines⟩ := rows_inj (hnumbers _) (hnumbers _) (hlast _ _) (hlast _ _) hlines
  obtain ⟨hdiagnostics, -⟩ := rows_inj (hnotes p) (hnotes q) follows_nil follows_nil hlines
  have hquote : Foreign '\'' := by decide
  exact alike_of_sections hinstructions
    (fun k i j hi hj h => entryLines_inj h (foreign_source hp hi hquote) (foreign_source hq hj hquote))
    hloops hdiagnostics

end Yaml

/-! ### Listings -/

/-- A listing identifies the compiled program, in each layout: programs with the same listing are the same,
whatever texts they come from and whether linear loops have been marked. -/
theorem program_eq_of_render (hp : Program.compile text linear = .ok p)
    (hq : Program.compile text' linear' = .ok q) (layout : Layout)
    (h : render p layout = render q layout) : p = q := by
  cases layout with
  | text => exact (alike_of_plain hp hq h).eq hp hq
  | json => exact (Json.alike_of_render hp hq h).eq hp hq
  | yaml => exact (Yaml.alike_of_render hp hq h).eq hp hq

/-- A program without linear loops has the same listing if none are to be marked, and a stretch that folds
away does not show in it. -/
theorem program_eq_of_render_of_idle_stretch : ∃ p q, Program.compile ",[.,]" true = .ok p ∧
    Program.compile ",+-[.,]" false = .ok q ∧ render p .yaml = render q .yaml ∧ p = q := by
  obtain ⟨p, hp⟩ := (Program.exists_compile_iff ",[.,]" true).2 (by decide)
  obtain ⟨q, hq⟩ := (Program.exists_compile_iff ",+-[.,]" false).2 (by decide)
  have hrender : (Program.compile ",[.,]" true).map (render · .yaml) =
      (Program.compile ",+-[.,]" false).map (render · .yaml) := by decide +kernel
  rw [hp, hq] at hrender
  have hsame := Except.ok.inj hrender
  exact ⟨p, q, hp, hq, hsame, program_eq_of_render hp hq .yaml hsame⟩

end Listing

end TapeFold
