import Mathlib.Data.List.Forall2
import TapeFold.CommandLine
import TapeFold.Proofs.Numerals
import TapeFold.Proofs.Source

/-!
# What a command line asks for

A command line gives values to options, sets flags and may name a file, in any order (`Asks`). The words
are read as what they ask for (`Asks.readRequest`), and the invocation then runs under settings that are
each taken from an option, else from the environment, else from the defaults (`plan_eq`).
-/

namespace TapeFold

theorem exists_of_bind_eq_ok {ε α β : Type} {x : Except ε α} {f : α → Except ε β} {b : β}
    (h : (x >>= f) = .ok b) : ∃ a, x = .ok a ∧ f a = .ok b := by
  cases x with
  | error e => cases h
  | ok a => exact ⟨a, rfl, h⟩

theorem bind_eq_ok {ε α β : Type} {x : Except ε α} {f : α → Except ε β} {a : α} {b : β}
    (h : x = .ok a) (hf : f a = .ok b) : (x >>= f) = .ok b := by
  rw [h]
  exact hf

theorem exists_of_map_eq_ok {ε α β : Type} {x : Except ε α} {f : α → β} {b : β}
    (h : x.map f = .ok b) : ∃ a, x = .ok a ∧ f a = b := by
  cases x with
  | error e => cases h
  | ok a => exact ⟨a, rfl, Except.ok.inj h⟩

namespace CommandLine

/-- What a command line asks for: the last value given to each option, as it is written, and the file. -/
structure Choice where
  memorySize : Option String := none
  eofValue : Option String := none
  maxSteps : Option String := none
  noLinear : Bool := false
  naive : Bool := false
  file : Option String := none

/-- A name of an option is one of its spellings, or a long one cut short that is the start of no other
one. -/
inductive Flag.Named (f : Flag) (name : String) : Prop
  | full (h : name ∈ f.spellings)
  | short {spelling : String} {cs : List Char} (hlong : name.toList = '-' :: '-' :: cs)
      (hfree : '=' ∉ name.toList)
      (h : Flag.table.filter (fun e => name.toList.isPrefixOf e.1.toList) = [(spelling, f)])

/-- The word is taken for no option. -/
def IsOperand (word : String) : Prop := Word.ofText word = .ok (.operand word)

instance (word : String) : Decidable (IsOperand word) := inferInstanceAs (Decidable (_ = _))

/-- The words that give a value to an option. The value stands in a word of its own, after an equals
sign, or right after the short name. -/
inductive Gives (f : Flag) (value : String) : List String → Prop
  | apart {name : String} (hn : f.Named name) (hv : IsOperand value) : Gives f value [name, value]
  | joined {name : String} (hn : f.Named name) : Gives f value [name ++ "=" ++ value]
  | glued {c : Char} {cs : List Char} (hf : f = .memorySize) (hv : value.toList = c :: cs)
      (hc : c ≠ '=') : Gives f value ["-m" ++ value]

/-- The words ask for the choice, with no separator among them. -/
inductive Collects : List String → Choice → Prop
  | nothing : Collects [] {}
  | memorySize {words given : List String} {c : Choice} {value : String} (h : Collects words c)
      (hg : Gives .memorySize value given) :
      Collects (words ++ given) { c with memorySize := some value }
  | eofValue {words given : List String} {c : Choice} {value : String} {n : Int}
      (h : Collects words c) (hg : Gives .eofValue value given)
      (hn : Text.readInteger value = .ok n) :
      Collects (words ++ given) { c with eofValue := some value }
  | maxSteps {words given : List String} {c : Choice} {value : String} {n : Int}
      (h : Collects words c) (hg : Gives .maxSteps value given)
      (hn : Text.readInteger value = .ok n) :
      Collects (words ++ given) { c with maxSteps := some value }
  | noLinear {words : List String} {c : Choice} {name : String} (h : Collects words c)
      (hn : Flag.noLinear.Named name) : Collects (words ++ [name]) { c with noLinear := true }
  | naive {words : List String} {c : Choice} {name : String} (h : Collects words c)
      (hn : Flag.naive.Named name) : Collects (words ++ [name]) { c with naive := true }
  | file {words : List String} {c : Choice} {path : String} (h : Collects words c)
      (hf : c.file = none) (ho : IsOperand path) :
      Collects (words ++ [path]) { c with file := some path }

/-- The words ask for the choice. A file that is named last may follow a separator. -/
inductive Asks : List String → Choice → Prop
  | plain {words : List String} {c : Choice} (h : Collects words c) : Asks words c
  | separated {words : List String} {c : Choice} {path : String} (h : Collects words c)
      (hf : c.file = none) : Asks (words ++ ["--", path]) { c with file := some path }

/-- The value that a text is read as if there is one, and the default otherwise. -/
inductive Drawn {ε α : Type} (read : String → Except ε α) (default : α) : Option String → α → Prop
  | read {text : String} {value : α} (h : read text = .ok value) : Drawn read default (some text) value
  | default : Drawn read default none default

open Settings in
/-- Each of the settings is taken from the choice, else from its variable, else it is the default. -/
structure Choice.Settles (c : Choice) (env : Environment) (s : Settings) : Prop where
  memorySize : Drawn (fun text => (readMemorySize text).map Int.ofNat) Tape.defaultSize
    (c.memorySize.or (lookup? env memorySizeVariable)) s.memorySize
  eofValue : Drawn Text.readInteger (-1) (c.eofValue.or (lookup? env eofValueVariable)) s.eofValue
  maxSteps : Drawn (fun text => (Text.readInteger text).map some) none
    (c.maxSteps.or (lookup? env maxStepsVariable)) s.maxSteps
  linear : ∃ linear, Drawn (readBool linearVariable) true (lookup? env linearVariable) linear ∧
    s.linear = (linear && !c.noLinear)
  positive : ∀ limit, s.maxSteps = some limit → 0 < limit

/-- The options that come of the choice when the settings do. -/
def Choice.options (c : Choice) (defaults s : Settings) : Options where
  file := c.file
  memorySize := c.memorySize.getD (toString defaults.memorySize)
  eofValue := s.eofValue
  maxSteps := s.maxSteps
  linear := s.linear
  naive := c.naive

/-! ### Names of options -/

section
variable {f g : Flag} {name value text : String} {c : Char} {cs vs : List Char}

theorem Flag.ofSpelling?_of_mem (h : name ∈ f.spellings) : ofSpelling? name = some f := by
  cases f <;> simp only [spellings, List.mem_cons, List.not_mem_nil, or_false] at h <;>
    rcases h with rfl | rfl <;> decide

theorem Flag.mem_table_of_ofSpelling? (h : ofSpelling? name = some f) : (name, f) ∈ table := by
  obtain ⟨l₁, l₂, hl, -⟩ := List.lookup_eq_some_iff.1 h
  rw [hl]
  exact List.mem_append_right l₁ List.mem_cons_self

theorem Flag.mem_spellings_of_ofSpelling? (h : ofSpelling? name = some f) : name ∈ f.spellings := by
  obtain ⟨g, -, hg⟩ := List.mem_flatMap.1 (mem_table_of_ofSpelling? h)
  obtain ⟨s, hs, he⟩ := List.mem_map.1 hg
  cases he
  exact hs

/-- A spelling starts with a dash, it is no lone one, and it holds no equals sign. -/
theorem Flag.exists_toList_of_mem (h : name ∈ f.spellings) :
    (∃ c cs, name.toList = '-' :: c :: cs) ∧ '=' ∉ name.toList := by
  cases f <;> simp only [spellings, List.mem_cons, List.not_mem_nil, or_false] at h <;>
    rcases h with rfl | rfl <;> exact ⟨⟨_, _, rfl⟩, by decide⟩

namespace Flag.Named
variable (hn : f.Named name)
include hn

theorem exists_toList : (∃ c cs, name.toList = '-' :: c :: cs) ∧ '=' ∉ name.toList := by
  cases hn with
  | full h => exact exists_toList_of_mem h
  | short hlong hfree _ => exact ⟨⟨_, _, hlong⟩, hfree⟩

/-- A name that is a spelling is one of the option that it names. -/
theorem eq_of_ofSpelling? (hg : ofSpelling? name = some g) : g = f := by
  cases hn with
  | full h => exact Option.some.inj (hg.symm.trans (ofSpelling?_of_mem h))
  | short _ _ h =>
    have hmem : (name, g) ∈ Flag.table.filter fun e => name.toList.isPrefixOf e.1.toList := by
      refine List.mem_filter.2 ⟨mem_table_of_ofSpelling? hg, ?_⟩
      exact List.isPrefixOf_iff_prefix.2 (List.prefix_refl _)
    rw [h] at hmem
    cases List.mem_singleton.1 hmem
    rfl

end Flag.Named

namespace Word

theorem cutAtEquals_of_not_mem (h : '=' ∉ cs) : cutAtEquals cs = (String.ofList cs, none) := by
  obtain ⟨hbefore, hafter⟩ := cut_of_not_mem h
  rw [cutAtEquals, hbefore, hafter]
  rfl

theorem cutAtEquals_append (h : '=' ∉ cs) (vs : List Char) :
    cutAtEquals (cs ++ '=' :: vs) = (String.ofList cs, some (String.ofList vs)) := by
  obtain ⟨hbefore, hafter⟩ := cut_append h vs
  rw [cutAtEquals, hbefore, hafter]
  rfl

section
variable (h : text.toList = '-' :: c :: cs)
include h

theorem ofText_of_spelling (hs : Flag.ofSpelling? text = some f) :
    ofText text = .ok (.option (some f) (c ≠ '-') none text) := by
  rw [ofText]
  split
  · rename_i c' cs' h'
    cases h.symm.trans h'
    simp only [hs]
  · rename_i hno
    exact absurd h (hno c cs)

theorem ofText_of_value (hs : Flag.ofSpelling? text = none)
    (hcut : cutAtEquals text.toList = (name, some value)) (hn : Flag.ofSpelling? name = some f) :
    ofText text = .ok (.option (some f) (c ≠ '-') (some ⟨false, value⟩) text) := by
  rw [h] at hcut
  rw [ofText]
  split
  · rename_i c' cs' h'
    cases h.symm.trans h'
    simp only [hs, hcut, hn]
  · rename_i hno
    exact absurd h (hno c cs)

theorem ofText_of_unknown (hs : Flag.ofSpelling? text = none)
    (hn : ∀ value, (cutAtEquals text.toList).2 = some value →
      Flag.ofSpelling? (cutAtEquals text.toList).1 = none) :
    ofText text = ofUnknown text.toList := by
  rw [h] at hn ⊢
  rw [ofText]
  split
  · rename_i c' cs' h'
    cases h.symm.trans h'
    match hcut : cutAtEquals ('-' :: c :: cs) with
    | (name, none) => simp only [hs]
    | (name, some value) =>
      rw [hcut] at hn
      have hn' : Flag.ofSpelling? name = none := hn value rfl
      simp only [hs, hn']
  · rename_i hno
    exact absurd h (hno c cs)

end

theorem ofUnknown_of_candidates {spelling : String} {word : Word}
    (h : candidates cs = [(spelling, word)]) : ofUnknown cs = .ok word := by
  simp only [ofUnknown, h]

theorem candidates_of_long {spelling : String} {value : Option String}
    (hcut : cutAtEquals ('-' :: '-' :: cs) = (name, value))
    (h : Flag.table.filter (fun e => name.toList.isPrefixOf e.1.toList) = [(spelling, f)]) :
    candidates ('-' :: '-' :: cs) = [(spelling, .option (some f) false (value.map (⟨false, ·⟩))
      (String.ofList ('-' :: '-' :: cs)))] := by
  simp only [candidates, hcut, h, List.map_cons, List.map_nil]

end Word

namespace Flag.Named
variable (hn : f.Named name)
include hn

/-- An option is understood by each of its names. -/
theorem ofText : ∃ short, Word.ofText name = .ok (.option (some f) short none name) := by
  obtain ⟨⟨c, cs, hlist⟩, hfree⟩ := hn.exists_toList
  match hs : ofSpelling? name with
  | some g =>
    obtain rfl := hn.eq_of_ofSpelling? hs
    exact ⟨_, Word.ofText_of_spelling hlist hs⟩
  | none =>
    have hcut := Word.cutAtEquals_of_not_mem hfree
    rw [String.ofList_toList] at hcut
    refine ⟨false, ?_⟩
    rw [Word.ofText_of_unknown hlist hs (by rw [hcut]; nofun)]
    cases hn with
    | full h =>
      rw [ofSpelling?_of_mem h] at hs
      cases hs
    | short hlong _ h =>
      rw [hlong] at hcut
      rw [hlong, Word.ofUnknown_of_candidates (Word.candidates_of_long hcut h), ← hlong,
        String.ofList_toList]
      rfl

/-- So it is with a value after an equals sign. -/
theorem ofText_joined (value : String) : ∃ short, Word.ofText (name ++ "=" ++ value) =
    .ok (.option (some f) short (some ⟨false, value⟩) (name ++ "=" ++ value)) := by
  obtain ⟨⟨c, cs, hlist⟩, hfree⟩ := hn.exists_toList
  have htext : (name ++ "=" ++ value).toList = name.toList ++ '=' :: value.toList := by
    simp
  have hcut := Word.cutAtEquals_append hfree value.toList
  rw [String.ofList_toList, String.ofList_toList, ← htext] at hcut
  have hnone : ofSpelling? (name ++ "=" ++ value) = none := by
    by_contra hne
    obtain ⟨g, hg⟩ := Option.ne_none_iff_exists'.1 hne
    refine (exists_toList_of_mem (mem_spellings_of_ofSpelling? hg)).2 ?_
    rw [htext]
    exact List.mem_append_right _ List.mem_cons_self
  have hlist' : (name ++ "=" ++ value).toList = '-' :: c :: (cs ++ '=' :: value.toList) := by
    rw [htext, hlist]
    rfl
  match hs : ofSpelling? name with
  | some g =>
    obtain rfl := hn.eq_of_ofSpelling? hs
    exact ⟨_, Word.ofText_of_value hlist' hnone hcut hs⟩
  | none =>
    refine ⟨false, ?_⟩
    rw [Word.ofText_of_unknown hlist' hnone fun _ _ => by rw [hcut]; exact hs]
    cases hn with
    | full h =>
      rw [ofSpelling?_of_mem h] at hs
      cases hs
    | @short spelling cs' hlong _ h =>
      have hlong' : (name ++ "=" ++ value).toList =
          '-' :: '-' :: (cs' ++ '=' :: value.toList) := by
        rw [htext, hlong]
        rfl
      rw [hlong'] at hcut
      rw [hlong', Word.ofUnknown_of_candidates (Word.candidates_of_long hcut h), ← hlong',
        String.ofList_toList]
      rfl

end Flag.Named

/-- A memory size may be glued to the short name of its option. -/
theorem Word.ofText_glued (hv : value.toList = c :: cs) (hc : c ≠ '=') :
    ofText ("-m" ++ value) =
      .ok (.option (some .memorySize) true (some ⟨true, value⟩) ("-m" ++ value)) := by
  -- no spelling goes on after the short name
  have hlong (ds : List Char) (d : Char) {t : String} (ht : t.toList = '-' :: 'm' :: d :: ds) :
      Flag.ofSpelling? t = none := by
    by_contra hne
    obtain ⟨g, hg⟩ := Option.ne_none_iff_exists'.1 hne
    have hmem := Flag.mem_spellings_of_ofSpelling? hg
    revert ht
    cases g <;> simp only [Flag.spellings, List.mem_cons, List.not_mem_nil, or_false] at hmem <;>
      rcases hmem with rfl | rfl <;> simp
  have htext : ("-m" ++ value).toList = '-' :: 'm' :: c :: cs := by
    simp [hv]
  have hcut : ∃ t, (cutAtEquals ("-m" ++ value).toList).1 = String.ofList ('-' :: 'm' :: c :: t) := by
    rw [htext]
    simp [cutAtEquals, hc]
  obtain ⟨t, ht⟩ := hcut
  rw [ofText_of_unknown htext (hlong _ _ htext) fun _ _ => by
    rw [ht]
    exact hlong _ _ String.toList_ofList]
  have hshort : Flag.table.filter (fun e => e.1.toList = ['-', 'm']) = [("-m", .memorySize)] := by
    decide
  have hcandidates : candidates ('-' :: 'm' :: c :: cs) =
      (Flag.table.filter fun e => e.1.toList = ['-', 'm']).map fun e =>
        (e.1, .option (some e.2) true (some ⟨true, String.ofList (c :: cs)⟩)
          (String.ofList ('-' :: 'm' :: c :: cs))) := rfl
  rw [hshort, List.map_singleton, ← htext, ← hv, String.ofList_toList, String.ofList_toList]
    at hcandidates
  exact ofUnknown_of_candidates hcandidates

end

/-! ### Words -/

/-- The texts are understood as the words, one by one. -/
def Word.Understood : List String → List Word → Prop :=
  List.Forall₂ fun text word => ofText text = .ok word

theorem Word.Understood.append {texts texts' : List String} {words words' : List Word}
    (h : Understood texts words) (h' : Understood texts' words') :
    Understood (texts ++ texts') (words ++ words') := List.rel_append h h'

theorem Word.ofTexts_append {texts : List String} {words : List Word} (h : Understood texts words)
    (rest : List String) : ofTexts (texts ++ rest) = (ofTexts rest).map (words ++ ·) := by
  induction h with
  | nil =>
    show ofTexts rest = _
    cases ofTexts rest <;> rfl
  | @cons text word texts words hw _ ih =>
    have hne : text ≠ "--" := by
      rintro rfl
      cases hw
    rw [List.cons_append, ofTexts, if_neg hne, hw, ih]
    cases ofTexts rest <;> rfl

/-! ### Reading -/

/-- The options `o` are the options `d` but for what the choice asks for. -/
structure Takes (d : Options) (c : Choice) (o : Options) : Prop where
  file : o.file = c.file
  memorySize : o.memorySize = c.memorySize.getD d.memorySize
  eofValue : Drawn Text.readInteger d.eofValue c.eofValue o.eofValue
  maxSteps : Drawn (fun text => (Text.readInteger text).map some) d.maxSteps c.maxSteps o.maxSteps
  linear : o.linear = (d.linear && !c.noLinear)
  naive : o.naive = (d.naive || c.naive)
  dump : o.dump = d.dump
  time : o.time = d.time
  logLevel : o.logLevel = d.logLevel
  logFormat : o.logFormat = d.logFormat

open Options (readWords) in
/-- The texts are read as options that change those read so far by `g`. -/
def Sets (texts : List String) (g : Options → Options) : Prop :=
  ∃ word words, Word.Understood texts (word :: words) ∧ word ≠ .separator ∧
    ∀ r rest, readWords r (word :: words ++ rest) =
      readWords { r with options := g r.options } rest

open Options (readWords) in
/-- The texts are read as what the choice asks for, unless they end with a file and a separator comes
next. -/
def ReadAs (d : Options) (texts : List String) (c : Choice) : Prop :=
  ∃ words o, Word.Understood texts words ∧ Takes d c o ∧
    ∀ rest, (c.file = none ∨ rest.head? ≠ some .separator) →
      readWords { options := d } (words ++ rest) =
        readWords { options := o, settled := c.file.isSome } rest

section
open Options (readWords)
variable {f : Flag} {value name path : String} {texts given : List String} {c c' : Choice}
  {d : Options} {g : Options → Options}

/-- An option with its value sets just that. -/
theorem Gives.sets (hg : Gives f value given) (hf : f.takesValue = true)
    (hset : ∀ o : Options, o.setValue f value = .ok (g o)) : Sets given g := by
  have hhelp : f ≠ .help := by
    rintro rfl
    cases hf
  cases hg with
  | apart hn hv =>
    obtain ⟨short, hname⟩ := hn.ofText
    refine ⟨_, _, .cons hname (.cons hv .nil), nofun, fun r rest => ?_⟩
    rw [Options.readWords.eq_def]
    simp only [List.cons_append, hf, hhelp, hset]
    rfl
  | joined hn =>
    obtain ⟨short, htext⟩ := hn.ofText_joined value
    refine ⟨_, _, .cons htext .nil, nofun, fun r rest => ?_⟩
    rw [Options.readWords.eq_def]
    simp only [List.cons_append, hf, hset]
    rfl
  | glued hm hv hc =>
    subst hm
    refine ⟨_, _, .cons (Word.ofText_glued hv hc) .nil, nofun, fun r rest => ?_⟩
    rw [Options.readWords.eq_def]
    simp only [List.cons_append, hf, hset]
    rfl

theorem Flag.Named.sets (hn : f.Named name) (hf : f.takesValue = false) (hhelp : f ≠ .help) :
    Sets [name] (·.setFlag f) := by
  obtain ⟨short, hname⟩ := hn.ofText
  refine ⟨_, _, .cons hname .nil, nofun, fun r rest => ?_⟩
  rw [Options.readWords.eq_def]
  simp only [List.cons_append, hf, hhelp]
  rfl

theorem ReadAs.append (h : ReadAs d texts c) (hg : Sets given g) (hfile : c'.file = c.file)
    (htakes : ∀ o, Takes d c o → Takes d c' (g o)) : ReadAs d (texts ++ given) c' := by
  obtain ⟨words, o, hw, ho, hread⟩ := h
  obtain ⟨word, ws, hws, hne, hgiven⟩ := hg
  refine ⟨words ++ word :: ws, g o, hw.append hws, htakes o ho, fun rest _ => ?_⟩
  rw [List.append_assoc, hread _ (.inr (by simpa using hne)), hgiven, hfile]

theorem ReadAs.file (h : ReadAs d texts c) (hf : c.file = none) (ho : IsOperand path) :
    ReadAs d (texts ++ [path]) { c with file := some path } := by
  obtain ⟨words, o, hw, htakes, hread⟩ := h
  have hpath : Word.Understood [path] [.operand path] := .cons ho .nil
  refine ⟨words ++ [.operand path], { o with file := some path }, hw.append hpath,
    { htakes with file := rfl }, fun rest hrest => ?_⟩
  rw [List.append_assoc, hread _ (.inl hf), hf, List.singleton_append, readWords]
  · rfl
  · rintro rest rfl
    exact hrest.elim nofun fun h => h rfl

/-- The words of a choice are read as what they ask for. -/
theorem Collects.readAs (h : Collects texts c) (hd : d.file = none) : ReadAs d texts c := by
  induction h with
  | nothing =>
    refine ⟨[], d, .nil, ?_, fun rest _ => rfl⟩
    exact ⟨hd, rfl, .default, .default, (Bool.and_true _).symm, (Bool.or_false _).symm, rfl, rfl, rfl,
      rfl⟩
  | @memorySize _ _ _ value _ hg ih =>
    have hsets : Sets _ fun o => { o with memorySize := value } := hg.sets rfl fun o => rfl
    exact ih.append hsets rfl fun o ho => { ho with memorySize := rfl }
  | @eofValue _ _ _ _ n _ hg hn ih =>
    have hsets : Sets _ fun o => { o with eofValue := n } :=
      hg.sets rfl fun o => by rw [Options.setValue, hn]
    exact ih.append hsets rfl fun o ho => { ho with eofValue := .read hn }
  | @maxSteps _ _ _ _ n _ hg hn ih =>
    have hsets : Sets _ fun o => { o with maxSteps := some n } :=
      hg.sets rfl fun o => by rw [Options.setValue, hn]
    exact ih.append hsets rfl fun o ho =>
      { ho with maxSteps := .read (congrArg (Except.map some) hn) }
  | noLinear _ hn ih =>
    exact ih.append (hn.sets rfl nofun) rfl fun o ho =>
      { ho with linear := (Bool.and_false _).symm }
  | naive _ hn ih =>
    exact ih.append (hn.sets rfl nofun) rfl fun o ho => { ho with naive := (Bool.or_true _).symm }
  | file _ hf ho ih => exact ih.file hf ho

/-- A command line is read as a request for what it asks for. -/
theorem Asks.readRequest (h : Asks texts c) (hd : d.file = none) :
    ∃ o, Takes d c o ∧ readRequest d texts = .ok (.run o) := by
  cases h with
  | plain h =>
    obtain ⟨words, o, hw, ho, hread⟩ := h.readAs hd
    have htexts := Word.ofTexts_append hw []
    have hwords := hread [] (.inr nofun)
    rw [List.append_nil] at htexts hwords
    refine ⟨o, ho, ?_⟩
    rw [CommandLine.readRequest, htexts]
    show (readWords { options := d } (words ++ [])).bind _ = _
    rw [List.append_nil, hwords]
    rfl
  | @separated texts c path h hf =>
    obtain ⟨words, o, hw, ho, hread⟩ := h.readAs hd
    have htexts := Word.ofTexts_append hw ["--", path]
    have hwords := hread [.separator, .operand path] (.inl hf)
    rw [hf] at hwords
    refine ⟨{ o with file := some path }, { ho with file := rfl }, ?_⟩
    rw [CommandLine.readRequest, htexts]
    show (readWords { options := d } (words ++ [.separator, .operand path])).bind _ = _
    rw [hwords]
    rfl

end

/-! ### Settings -/

namespace Drawn
variable {α ε : Type} {read : String → Except ε α} {default x y : α} {text text' : Option String}

theorem unique (h : Drawn read default text x) (h' : Drawn read default text y) : x = y := by
  cases h with
  | default =>
    cases h'
    rfl
  | read h =>
    cases h' with
    | read h' => exact Except.ok.inj (h.symm.trans h')

/-- What is drawn from a text, else from a second one, is the default where the first one is drawn
from. -/
theorem through (h : Drawn read default text' x) (h' : Drawn read x text y) :
    Drawn read default (text.or text') y := by
  cases h' with
  | read h' => exact .read h'
  | default => exact h

theorem mono {ε' : Type} {read' : String → Except ε' α}
    (hread : ∀ t v, read t = .ok v → read' t = .ok v) (h : Drawn read default text x) :
    Drawn read' default text x := by
  cases h with
  | read h => exact .read (hread _ _ h)
  | default => exact .default

section
variable {name other value : String}

/-- A variable is read from an environment that has it alone. -/
theorem of_lookup (hv : value ≠ "") (h : read value = .ok x) :
    Drawn read default (Settings.lookup? [(name, value)] name) x := by
  have hlookup : Settings.lookup? [(name, value)] name = some value := by
    simp [Settings.lookup?, hv]
  rw [hlookup]
  exact .read h

/-- Any other one is the default then. -/
theorem of_ne (h : other ≠ name) :
    Drawn read default (Settings.lookup? [(name, value)] other) default := by
  have hlookup : Settings.lookup? [(name, value)] other = none := by
    simp [Settings.lookup?, List.lookup_singleton, h]
  rw [hlookup]
  exact .default

end

end Drawn

end CommandLine

namespace Settings
open CommandLine (Drawn)
variable {env : Environment} {name value : String} {s s' defaults : Settings} {n : Int}

theorem readVariable_eq_ok_iff {α : Type} {default v : α} {read : String → Except SettingsError α} :
    readVariable env name default read = .ok v ↔ Drawn read default (lookup? env name) v := by
  rw [readVariable]
  cases lookup? env name with
  | none =>
    constructor
    · rintro ⟨⟩
      exact .default
    · rintro ⟨⟩
      rfl
  | some value =>
    constructor
    · exact .read
    · rintro ⟨h⟩
      exact h

theorem readInteger_eq_ok_iff : readInteger name value = .ok n ↔ Text.readInteger value = .ok n := by
  rw [readInteger]
  cases Text.readInteger value with
  | ok k => exact ⟨fun h => congrArg _ (Except.ok.inj h), fun h => congrArg _ (Except.ok.inj h)⟩
  | error e => exact ⟨nofun, nofun⟩

theorem check_eq_ok (hsize : 0 < s.memorySize)
    (hsteps : ∀ limit, s.maxSteps = some limit → 0 < limit) : check s = .ok s := by
  rw [check, if_neg (Int.not_le.2 hsize)]
  cases hl : s.maxSteps with
  | none => rfl
  | some limit => exact if_neg (Int.not_le.2 (hsteps limit hl))

theorem of_check_eq_ok (h : check s = .ok s') :
    s = s' ∧ 0 < s.memorySize ∧ ∀ limit, s.maxSteps = some limit → 0 < limit := by
  rw [check] at h
  split at h
  · cases h
  · rename_i hsize
    cases hl : s.maxSteps with
    | none =>
      rw [hl] at h
      exact ⟨Except.ok.inj h, by omega, nofun⟩
    | some limit =>
      simp only [hl] at h
      split at h
      · cases h
      · rename_i hlimit
        refine ⟨Except.ok.inj h, by omega, ?_⟩
        rintro _ ⟨⟩
        omega

theorem pos_of_readMemorySize {k : Nat} (h : readMemorySize value = .ok k) : 0 < k := by
  simp only [readMemorySize] at h
  split at h
  · cases h
  · split at h
    · cases h
    · split at h
      · cases h
      · split at h
        · cases h
        · cases h
          omega

/-- A memory size is positive, and so is the default. -/
theorem pos_of_drawn {text : Option String}
    (h : Drawn (fun text => (readMemorySize text).map Int.ofNat) Tape.defaultSize text n) :
    0 < n := by
  cases h with
  | default => decide
  | read h =>
    obtain ⟨k, hk, rfl⟩ := exists_of_map_eq_ok h
    exact Int.natCast_pos.2 (pos_of_readMemorySize hk)

/-- A valid environment settles what is not chosen. -/
theorem settles_of_ofEnvironment (h : ofEnvironment env = .ok defaults) :
    ({} : CommandLine.Choice).Settles env defaults := by
  obtain ⟨memorySize, hmemory, h⟩ := exists_of_bind_eq_ok h
  obtain ⟨eofValue, heof, h⟩ := exists_of_bind_eq_ok h
  obtain ⟨linear, hlinear, h⟩ := exists_of_bind_eq_ok h
  obtain ⟨maxSteps, hmax, h⟩ := exists_of_bind_eq_ok h
  obtain ⟨rfl, -, hpos⟩ := of_check_eq_ok h
  exact {
    memorySize := readVariable_eq_ok_iff.1 hmemory
    eofValue := (readVariable_eq_ok_iff.1 heof).mono fun _ _ => readInteger_eq_ok_iff.1
    maxSteps := (readVariable_eq_ok_iff.1 hmax).mono fun t v ht => by
      obtain ⟨n, hn, rfl⟩ := exists_of_map_eq_ok ht
      exact congrArg (Except.map some) (readInteger_eq_ok_iff.1 hn)
    linear := ⟨linear, readVariable_eq_ok_iff.1 hlinear, (Bool.and_true _).symm⟩
    positive := hpos }

/-- An environment that settles what is not chosen is valid. -/
theorem ofEnvironment_of_settles (h : ({} : CommandLine.Choice).Settles env s) :
    ofEnvironment env = .ok s := by
  obtain ⟨linear, hlinear, hs⟩ := h.linear
  obtain rfl : s.linear = linear := hs.trans (Bool.and_true _)
  have hmemory := readVariable_eq_ok_iff.2 h.memorySize
  have heof : readVariable env eofValueVariable (-1) (readInteger eofValueVariable) =
      .ok s.eofValue :=
    readVariable_eq_ok_iff.2 (h.eofValue.mono fun _ _ => readInteger_eq_ok_iff.2)
  have hboolean := readVariable_eq_ok_iff.2 hlinear
  have hmax : readVariable env maxStepsVariable none
      (fun value => (readInteger maxStepsVariable value).map some) = .ok s.maxSteps :=
    readVariable_eq_ok_iff.2 (h.maxSteps.mono fun t v ht => by
      obtain ⟨n, hn, rfl⟩ := exists_of_map_eq_ok ht
      exact congrArg (Except.map some) (readInteger_eq_ok_iff.2 hn))
  have hcheck := check_eq_ok (pos_of_drawn h.memorySize) h.positive
  exact bind_eq_ok hmemory (bind_eq_ok heof (bind_eq_ok hboolean (bind_eq_ok hmax hcheck)))

end Settings

namespace CommandLine
variable {env : Settings.Environment} {words : List String} {c : Choice} {defaults s : Settings}
  {value : String}

/-- An environment may have one variable alone. -/
theorem Choice.settles_memorySize {n : Nat} (hv : value ≠ "")
    (h : Settings.readMemorySize value = .ok n) :
    ({} : Choice).Settles [(Settings.memorySizeVariable, value)] { memorySize := n } where
  memorySize := .of_lookup hv (congrArg (Except.map Int.ofNat) h)
  eofValue := .of_ne (by decide)
  maxSteps := .of_ne (by decide)
  linear := ⟨true, .of_ne (by decide), rfl⟩
  positive := nofun

theorem Choice.settles_maxSteps {n : Int} (hv : value ≠ "") (h : Text.readInteger value = .ok n)
    (hn : 0 < n) :
    ({} : Choice).Settles [(Settings.maxStepsVariable, value)] { maxSteps := some n } where
  memorySize := .of_ne (by decide)
  eofValue := .of_ne (by decide)
  maxSteps := .of_lookup hv (congrArg (Except.map some) h)
  linear := ⟨true, .of_ne (by decide), rfl⟩
  positive := by
    rintro _ ⟨⟩
    exact hn

/-- The default memory size is written out and read back, unless there is an option for it. -/
theorem Choice.Settles.readMemorySize (h : c.Settles env s)
    (henv : Settings.ofEnvironment env = .ok defaults)
    (hsize : Text.Short defaults.memorySize) :
    Settings.readMemorySize (c.memorySize.getD (toString defaults.memorySize)) =
      .ok s.memorySize.toNat := by
  have hd := (Settings.settles_of_ofEnvironment henv).memorySize
  have hs := h.memorySize
  cases hc : c.memorySize with
  | none =>
    rw [hc] at hs
    rw [hd.unique hs] at hsize ⊢
    exact Settings.readMemorySize_toString (Settings.pos_of_drawn hs) hsize
  | some text =>
    rw [hc] at hs
    cases hs with
    | read hs =>
      obtain ⟨k, hk, hn⟩ := exists_of_map_eq_ok hs
      rw [← hn]
      exact hk

/-- The options that are taken are those of the choice, under the settings that both come to. -/
theorem Takes.eq_options {o : Options}
    (ho : Takes (defaultOptions defaults (toString defaults.memorySize)) c o)
    (henv : Settings.ofEnvironment env = .ok defaults) (hs : c.Settles env s) :
    o = c.options defaults s := by
  have hd := Settings.settles_of_ofEnvironment henv
  have heof : o.eofValue = s.eofValue := (hd.eofValue.through ho.eofValue).unique hs.eofValue
  have hmax : o.maxSteps = s.maxSteps := (hd.maxSteps.through ho.maxSteps).unique hs.maxSteps
  have hlinear : o.linear = s.linear := by
    obtain ⟨b, hb, hdb⟩ := hd.linear
    obtain ⟨b', hb', hsb⟩ := hs.linear
    rw [ho.linear, hsb, ← hb.unique hb', defaultOptions, hdb]
    simp
  obtain ⟨file, memorySize, eofValue, maxSteps, linear, naive, dump, time, level, format⟩ := o
  have hfile : file = c.file := ho.file
  have hmemory : memorySize = c.memorySize.getD (toString defaults.memorySize) := ho.memorySize
  have hnaive : naive = c.naive := ho.naive.trans (Bool.false_or _)
  have hrest : dump = none ∧ time = false ∧ level = .warning ∧ format = .console :=
    ⟨ho.dump, ho.time, ho.logLevel, ho.logFormat⟩
  obtain ⟨rfl, rfl, rfl, rfl⟩ := hrest
  simp only at heof hmax hlinear
  rw [hfile, hmemory, heof, hmax, hlinear, hnaive]
  rfl

/-- The options of a choice amount to the settings that it comes to. -/
theorem Choice.Settles.settings_options (h : c.Settles env s)
    (henv : Settings.ofEnvironment env = .ok defaults) (hsize : Text.Short defaults.memorySize) :
    (c.options defaults s).settings = .ok s := by
  have hmemory := Settings.pos_of_drawn h.memorySize
  have hcheck := Settings.check_eq_ok hmemory h.positive
  have hnat : ((s.memorySize.toNat : Nat) : Int) = s.memorySize :=
    Int.toNat_of_nonneg (Int.le_of_lt hmemory)
  rw [Options.settings, Choice.options, h.readMemorySize henv hsize]
  show Settings.check ⟨(s.memorySize.toNat : Nat), _, _, _⟩ = _
  rw [hnat]
  exact hcheck

/-- A command line with a valid environment runs under the settings that both come to. -/
theorem plan_eq (hw : Asks words c) (henv : Settings.ofEnvironment env = .ok defaults)
    (hsize : Text.Short defaults.memorySize) (hs : c.Settles env s) :
    plan env words = .ok (.run (c.options defaults s) s) := by
  obtain ⟨o, ho, hread⟩ := hw.readRequest
    (d := defaultOptions defaults (toString defaults.memorySize)) rfl
  rw [ho.eq_options henv hs] at hread
  simp only [plan, henv, Text.writeInteger_of_short hsize, hread, hs.settings_options henv hsize]

/-- The memory size of the environment is written out, whatever the command line is. -/
theorem plan_of_long (henv : Settings.ofEnvironment env = .ok defaults)
    (hlong : ¬ Text.Short defaults.memorySize) :
    plan env words = .error (.numeral .tooLongToWrite) := by
  have hwrite : Text.writeInteger defaults.memorySize = .error .tooLongToWrite := if_neg hlong
  simp only [plan, henv, hwrite]

end CommandLine

end TapeFold
