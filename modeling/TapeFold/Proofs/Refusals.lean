import TapeFold.Proofs.Options

/-!
# Settings that are refused

A bad value in the environment or on the command line is refused with a message, unless it has the form
of a memory size but its digits are no numeral (`Unreadable`): the scan for digits takes ornamental ones
and any number of them, and the numeral does not. Then the invocation breaks off, as it does if a number
is too long to be written (`CommandLine.refuses_bad_settings`).
-/

namespace TapeFold

/-- The value is good, or it is refused for a reason, unless getting at it breaks off at a number. That
happens just if `odd` holds. -/
structure Reports {α : Type} (good : α → Prop) (odd : Prop) (x : Except SettingsError α) : Prop where
  good : ∀ {a : α}, x = .ok a → good a
  breaks_off : (∃ e, x = .error (.numeral e)) ↔ odd

namespace Settings

/-- The digits that a memory size starts with. -/
def sizeDigits (text : String) : List Char :=
  (Text.trim Text.isBlank text.toList).takeWhile Text.isDigit

/-- What stands after the digits of a memory size. -/
def sizeUnit (text : String) : String :=
  String.ofList ((Text.trim Text.isBlank text.toList).dropWhile Text.isDigit)

/-- The text has the form of a memory size, but its digits are not all decimal, or they are too many. -/
structure Unreadable (text : String) : Prop where
  digits : sizeDigits text ≠ []
  unit : (unitSize? (sizeUnit text)).isSome
  numeral : (∃ c ∈ sizeDigits text, Text.isDecimal c = false) ∨
    Text.digitLimit < (sizeDigits text).length

/-- Settings that a run can have. -/
structure Good (s : Settings) : Prop where
  memorySize : 0 < s.memorySize
  maxSteps : ∀ limit, s.maxSteps = some limit → 0 < limit

end Settings

/-! ### Reports -/

namespace Reports
variable {α β : Type} {good : α → Prop} {good' : β → Prop} {odd : Prop} {x : Except SettingsError α}

theorem ok {a : α} (h : good a) : Reports good False (.ok a) :=
  ⟨fun he => Except.ok.inj he ▸ h, ⟨nofun, False.elim⟩⟩

theorem error {e : SettingsError} (h : ∀ n, e ≠ .numeral n) : Reports good False (.error e) :=
  ⟨nofun, fun ⟨n, he⟩ => h n (Except.error.inj he), False.elim⟩

theorem congr {odd' : Prop} (h : Reports good odd x) (ho : odd ↔ odd') : Reports good odd' x :=
  ⟨h.good, h.breaks_off.trans ho⟩

/-- After a value that may break off comes what does not. -/
theorem bind {f : α → Except SettingsError β} (h : Reports good odd x)
    (hf : ∀ a, good a → Reports good' False (f a)) : Reports good' odd (x >>= f) := by
  cases x with
  | ok a =>
    have ha := hf a (h.good rfl)
    refine ⟨ha.good, ?_⟩
    rw [← h.breaks_off]
    exact iff_of_false ha.breaks_off.1 nofun
  | error e =>
    refine ⟨nofun, ?_⟩
    rw [← h.breaks_off]
    exact exists_congr fun n =>
      ⟨fun he => congrArg _ (Except.error.inj he), fun he => congrArg _ (Except.error.inj he)⟩

theorem map {f : α → β} (h : Reports good odd x) (hf : ∀ a, good a → good' (f a)) :
    Reports good' odd (x.map f) := by
  have hmap : x.map f = (x >>= fun a => .ok (f a)) := by cases x <;> rfl
  rw [hmap]
  exact h.bind fun a ha => .ok (hf a ha)

end Reports

namespace Settings
variable {env : Environment} {name : String} {s : Settings}

theorem not_mem_sizeDigits (text : String) : '_' ∉ sizeDigits text := fun h =>
  absurd (List.mem_takeWhile_imp h) (by decide)

theorem reports_readMemorySize (text : String) :
    Reports (fun n => 0 < n) (Unreadable text) (readMemorySize text) := by
  have hnumeral := Text.readNatural_eq_error_iff (String.ofList (sizeDigits text))
    (not_mem_sizeDigits text)
  refine ⟨pos_of_readMemorySize, ?_⟩
  simp only [readMemorySize]
  split
  · rename_i hd
    refine iff_of_false ?_ fun h => h.digits hd
    rintro ⟨e, he⟩
    cases he
  rename_i hd
  split
  · rename_i hu
    refine iff_of_false ?_ fun h => ?_
    · rintro ⟨e, he⟩
      cases he
    · have hunit := h.unit
      rw [sizeUnit, hu] at hunit
      cases hunit
  rename_i unitSize hu
  split
  · rename_i e hr
    have hunit : (unitSize? (sizeUnit text)).isSome := by
      rw [sizeUnit, hu]
      rfl
    exact iff_of_true ⟨e, rfl⟩ ⟨hd, hunit, (hnumeral hd).1 ⟨e, hr⟩⟩
  · rename_i n hr
    refine iff_of_false ?_ fun h => ?_
    · rintro ⟨e, he⟩
      split at he <;> cases he
    · obtain ⟨e, he⟩ := (hnumeral hd).2 h.numeral
      cases hr.symm.trans he

theorem reports_check (s : Settings) : Reports Good False (check s) := by
  refine ⟨fun h => ?_, ⟨?_, False.elim⟩⟩
  · obtain ⟨rfl, hsize, hsteps⟩ := of_check_eq_ok h
    exact ⟨hsize, hsteps⟩
  · rintro ⟨e, he⟩
    rw [check] at he
    split at he
    · cases Except.error.inj he
    · split at he
      · split at he
        · cases Except.error.inj he
        · cases he
      · cases he

theorem reports_readInteger (name value : String) :
    Reports (fun _ => True) False (readInteger name value) := by
  rw [readInteger]
  split
  · exact .ok trivial
  · refine .error fun n hn => ?_
    cases hn

theorem reports_readBool (name value : String) :
    Reports (fun _ => True) False (readBool name value) := by
  rw [readBool]
  split
  · exact .ok trivial
  · refine .error fun n hn => ?_
    cases hn

/-- A variable breaks off where its value does. -/
theorem reports_readVariable {α : Type} {good : α → Prop} {odd : String → Prop} {default : α}
    {read : String → Except SettingsError α} (hd : good default)
    (hr : ∀ value, Reports good (odd value) (read value)) :
    Reports good (∃ value, lookup? env name = some value ∧ odd value)
      (readVariable env name default read) := by
  rw [readVariable]
  cases lookup? env name with
  | none =>
    refine ⟨fun h => Except.ok.inj h ▸ hd, iff_of_false ?_ ?_⟩
    · rintro ⟨e, he⟩
      cases he
    · rintro ⟨value, hv, -⟩
      cases hv
  | some value =>
    refine ⟨(hr value).good, (hr value).breaks_off.trans ⟨fun h => ⟨value, rfl, h⟩, ?_⟩⟩
    rintro ⟨value, ⟨⟩, h⟩
    exact h

/-- An environment breaks off in nothing but a memory size. -/
theorem reports_ofEnvironment (env : Environment) :
    Reports Good (∃ value, lookup? env memorySizeVariable = some value ∧ Unreadable value)
      (ofEnvironment env) := by
  have hsize : Reports (fun n : Int => 0 < n)
      (∃ value, lookup? env memorySizeVariable = some value ∧ Unreadable value)
      (readVariable env memorySizeVariable Tape.defaultSize
        fun value => (readMemorySize value).map Int.ofNat) :=
    reports_readVariable (by decide) fun value =>
      (reports_readMemorySize value).map fun n hn => Int.natCast_pos.2 hn
  have hregular {α : Type} {name : String} {default : α} {read : String → Except SettingsError α}
      (h : ∀ value, Reports (fun _ => True) False (read value)) :
      Reports (fun _ => True) False (readVariable env name default read) :=
    (reports_readVariable trivial h).congr ⟨fun ⟨_, _, h⟩ => h, False.elim⟩
  refine hsize.bind fun _ _ => (hregular (reports_readInteger _)).bind fun _ _ =>
    (hregular (reports_readBool _)).bind fun _ _ =>
      (hregular fun value => ?_).bind fun _ _ => reports_check _
  exact (reports_readInteger _ value).map fun _ _ => trivial

end Settings

/-! ### Command lines -/

namespace CommandLine
open Settings (ofEnvironment lookup? memorySizeVariable Unreadable Good)

/-- An invocation breaks off before it runs: at the memory size that the environment names, when that is
to be written as the default of the option, or at the value of the option. -/
inductive BreaksOff (env : Settings.Environment) (words : List String) : Prop
  | environment {value : String} (h : lookup? env memorySizeVariable = some value)
      (hv : Unreadable value)
  | default {defaults : Settings} (h : ofEnvironment env = .ok defaults)
      (hlong : ¬ Text.Short defaults.memorySize)
  | option {defaults : Settings} {o : Options} (h : ofEnvironment env = .ok defaults)
      (hshort : Text.Short defaults.memorySize)
      (ho : readRequest (defaultOptions defaults (toString defaults.memorySize)) words =
        .ok (.run o)) (hv : Unreadable o.memorySize)

/-- An invocation ends before anything is read, with a complaint. -/
def Refuses (s : Surroundings) (patience : Nat) (complaint : String) : Prop :=
  ∃ r, run s patience = .ok r ∧ r.exitCode.toNat = 2 ∧ r.stdout = [] ∧ r.stdin = s.stdin ∧
    r.complaint = some complaint

/-- An event of the run is to be reported, but holds a number that is too long to be written. -/
def ReportsTooLong (s : Surroundings) (patience : Nat) : Prop :=
  ∃ o settings r, plan s.environment s.words = .ok (.run o settings) ∧
    interpret s o settings patience = .ok r ∧
    ∃ event ∈ r.events, event.isReported o.logLevel = true ∧ event.isWritable = false

/-- Bad settings are refused. No invocation breaks off at a number but at a memory size, or at an event
of its run that is to be reported. -/
structure RefusesBadSettings (s : Surroundings) (patience : Nat) : Prop where
  environment : ∀ {e : SettingsError}, ofEnvironment s.environment = .error e →
    (∀ n, e ≠ .numeral n) → Refuses s patience ("bffold: " ++ e.message)
  option : ∀ {defaults : Settings} {o : Options} {e : SettingsError},
    ofEnvironment s.environment = .ok defaults → Text.Short defaults.memorySize →
    readRequest (defaultOptions defaults (toString defaults.memorySize)) s.words = .ok (.run o) →
    o.settings = .error e → (∀ n, e ≠ .numeral n) → Refuses s patience ("bffold: error: " ++ e.message)
  chosen : ∀ {c : Choice} {value : String} {d : Options}, Asks s.words c →
    c.memorySize = some value → d.file = none →
    ∃ o, readRequest d s.words = .ok (.run o) ∧ o.memorySize = value
  breaks_off : (∃ n, run s patience = .error (.numeral n)) ↔
    BreaksOff s.environment s.words ∨ ReportsTooLong s patience

variable {s : Surroundings} {env : Settings.Environment} {words : List String} {defaults : Settings}
  {o : Options} {e : SettingsError} {patience : Nat}

theorem reports_settings (o : Options) : Reports Good (Unreadable o.memorySize) o.settings :=
  (Settings.reports_readMemorySize o.memorySize).bind fun _ _ => Settings.reports_check _

/-! ### What is planned -/

theorem plan_of_environment (h : ofEnvironment env = .error e) (he : ∀ n, e ≠ .numeral n) :
    plan env words = .ok (.refuse ("bffold: " ++ e.message)) := by
  rw [plan, h]
  cases e with
  | numeral n => exact absurd rfl (he n)
  | _ => rfl

theorem plan_of_settings (h : ofEnvironment env = .ok defaults)
    (hshort : Text.Short defaults.memorySize)
    (ho : readRequest (defaultOptions defaults (toString defaults.memorySize)) words = .ok (.run o))
    (hs : o.settings = .error e) (he : ∀ n, e ≠ .numeral n) :
    plan env words = .ok (.refuse ("bffold: error: " ++ e.message)) := by
  simp only [plan, h, Text.writeInteger_of_short hshort, ho, hs]

/-- An invocation breaks off before it runs at a number, and just at a memory size. -/
theorem plan_eq_error_iff :
    (∃ n, plan env words = .error (.numeral n)) ↔ BreaksOff env words := by
  constructor
  · rintro ⟨n, hn⟩
    simp only [plan] at hn
    split at hn
    · rename_i n' h
      obtain ⟨value, hl, hv⟩ := (Settings.reports_ofEnvironment env).breaks_off.1 ⟨n', h⟩
      exact .environment hl hv
    · cases hn
    · rename_i defaults h
      by_cases hshort : Text.Short defaults.memorySize
      · rw [Text.writeInteger_of_short hshort] at hn
        dsimp only at hn
        split at hn
        · cases hn
        · cases hn
        · rename_i o ho
          split at hn
          · rename_i n' hs
            exact .option h hshort ho ((reports_settings o).breaks_off.1 ⟨n', hs⟩)
          · cases hn
          · cases hn
      · exact .default h hshort
  · intro hb
    cases hb with
    | environment hl hv =>
      obtain ⟨n, h⟩ := (Settings.reports_ofEnvironment env).breaks_off.2 ⟨_, hl, hv⟩
      exact ⟨n, by simp only [plan, h]⟩
    | default h hlong => exact ⟨.tooLongToWrite, plan_of_long h hlong⟩
    | option h hshort ho hv =>
      obtain ⟨n, hs⟩ := (reports_settings _).breaks_off.2 hv
      exact ⟨n, by simp only [plan, h, Text.writeInteger_of_short hshort, ho, hs]⟩

/-! ### What is run -/

theorem refuses_of_plan {complaint : String}
    (h : plan s.environment s.words = .ok (.refuse complaint)) : Refuses s patience complaint := by
  refine ⟨{ exitCode := .usage, stdin := s.stdin, complaint := some complaint }, ?_, rfl, rfl, rfl,
    rfl⟩
  rw [run, h]
  rfl

theorem reportEnding_ne_numeral (n : Text.NumeralError) (e : Ending) (events : List Event) :
    reportEnding o e events ≠ .error (.numeral n) := by
  rw [reportEnding]
  split
  · exact nofun
  · exact nofun
  · exact nofun
  · split <;> exact nofun

/-- A run does not break off at a number. -/
theorem interpret_ne_numeral (s : Surroundings) (o : Options) (settings : Settings) (patience : Nat)
    (n : Text.NumeralError) : interpret s o settings patience ≠ .error (.numeral n) := by
  rw [interpret]
  split
  · exact nofun
  · exact nofun
  · split
    · rw [interpretPlainly]
      split
      · exact nofun
      · exact reportEnding_ne_numeral n _ _
    · simp only [interpretCompiled]
      split
      · exact nofun
      · split
        · exact nofun
        · exact reportEnding_ne_numeral n _ _

theorem reportEvents_eq_error_iff (r : Report) (o : Options) :
    (∃ n, r.reportEvents o = .error (.numeral n)) ↔
      ∃ event ∈ r.events, event.isReported o.logLevel = true ∧ event.isWritable = false := by
  have hall : (r.events.filter (·.isReported o.logLevel)).all Event.isWritable = false ↔
      ∃ event ∈ r.events, event.isReported o.logLevel = true ∧ event.isWritable = false := by
    simp only [List.all_eq_false, List.mem_filter, and_assoc, Bool.not_eq_true]
  rw [← hall]
  simp only [Report.reportEvents]
  split
  · rename_i h
    exact iff_of_false nofun (by rw [h]; nofun)
  · rename_i h
    exact iff_of_true ⟨_, rfl⟩ (Bool.not_eq_true _ ▸ h)

theorem run_eq_error_iff : (∃ n, run s patience = .error (.numeral n)) ↔
    BreaksOff s.environment s.words ∨ ReportsTooLong s patience := by
  rw [← plan_eq_error_iff, ReportsTooLong, run]
  cases hp : plan s.environment s.words with
  | error c => simp [bind, Except.bind]
  | ok p =>
    cases p with
    | refuse complaint => exact iff_of_false nofun (by simp)
    | help => exact iff_of_false nofun (by simp)
    | run o settings =>
      show (∃ n, (interpret s o settings patience >>= (·.reportEvents o)) =
        .error (.numeral n)) ↔ _
      cases hi : interpret s o settings patience with
      | error c =>
        refine iff_of_false ?_ ?_
        · rintro ⟨n, hn⟩
          exact interpret_ne_numeral s o settings patience n (hi.trans hn)
        · rintro (⟨n, ⟨⟩⟩ | ⟨_, _, r, ⟨⟩, hr, -⟩)
          cases hi.symm.trans hr
      | ok r =>
        refine (reportEvents_eq_error_iff r o).trans ⟨fun h => .inr ⟨o, settings, r, rfl, hi, h⟩, ?_⟩
        rintro (⟨n, ⟨⟩⟩ | ⟨_, _, r', ⟨⟩, hr, h⟩)
        obtain rfl := Except.ok.inj (hi.symm.trans hr)
        exact h

/-- Every text, every environment and every command line is read, or refused with a reason, but for
numbers that are no numeral or too long. -/
theorem refuses_bad_settings (text : String) (env : Settings.Environment) (s : Surroundings)
    (patience : Nat) :
    Reports (fun n => 0 < n) (Unreadable text) (Settings.readMemorySize text) ∧
      Reports Good (∃ value, lookup? env memorySizeVariable = some value ∧ Unreadable value)
        (ofEnvironment env) ∧
      RefusesBadSettings s patience := by
  refine ⟨Settings.reports_readMemorySize text, Settings.reports_ofEnvironment env, ?_⟩
  exact {
    environment := fun h he => refuses_of_plan (plan_of_environment h he)
    option := fun h hshort ho hs he => refuses_of_plan (plan_of_settings h hshort ho hs he)
    chosen := fun hw hc hd => by
      obtain ⟨o, ho, hread⟩ := hw.readRequest hd
      exact ⟨o, hread, ho.memorySize.trans (by rw [hc]; rfl)⟩
    breaks_off := run_eq_error_iff }

/-- A raised digit is scanned as one and then is no numeral. -/
theorem breaks_off_at_raised_digit :
    Settings.readMemorySize "²" = .error (.numeral (.invalid "²")) ∧
      ofEnvironment [("BFFOLD_MEMORY_SIZE", "²")] = .error (.numeral (.invalid "²")) ∧
      plan [] ["-m", "²"] = .error (.numeral (.invalid "²")) := by
  decide +kernel

/-- An unknown unit is refused, but not a raised digit. -/
theorem refuses_unknown_unit :
    Refuses ⟨["-m", "12q"], [], fun _ => .error .notFound, .ofBytes []⟩ 0
        "bffold: error: Invalid memory unit 'q' in '12q'" ∧
      ∃ n, run ⟨["-m", "12²k"], [], fun _ => .error .notFound, .ofBytes []⟩ 0 =
        .error (.numeral n) := by
  obtain ⟨-, -, h⟩ := refuses_bad_settings "12q" []
    ⟨["-m", "12q"], [], fun _ => .error .notFound, .ofBytes []⟩ 0
  obtain ⟨-, -, h'⟩ := refuses_bad_settings "12²k" []
    ⟨["-m", "12²k"], [], fun _ => .error .notFound, .ofBytes []⟩ 0
  have hdefaults : ofEnvironment [] = .ok {} := by decide +kernel
  have hshort : Text.Short ({} : Settings).memorySize := by decide +kernel
  have hmessage : "bffold: error: " ++ SettingsError.message (.unitUnknown "q" "12q") =
      "bffold: error: Invalid memory unit 'q' in '12q'" := by decide +kernel
  have hunit : readRequest (defaultOptions {} "1024") ["-m", "12q"] =
      .ok (.run { defaultOptions {} "1024" with memorySize := "12q" }) := by decide +kernel
  have hdigit : readRequest (defaultOptions {} "1024") ["-m", "12²k"] =
      .ok (.run { defaultOptions {} "1024" with memorySize := "12²k" }) := by decide +kernel
  constructor
  · rw [← hmessage]
    exact h.option hdefaults hshort hunit (by decide +kernel) nofun
  · refine h'.breaks_off.2 (.inl (.option hdefaults hshort hdigit ?_))
    exact ⟨by decide, by decide, .inl ⟨'²', by decide, by decide⟩⟩

end CommandLine

end TapeFold
