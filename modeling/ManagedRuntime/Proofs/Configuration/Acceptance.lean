import Mathlib
import ManagedRuntime.Execution.Process
import ManagedRuntime.Proofs.Toml.Plain

/-!
# Which texts are configurations

* `Setting` : the settings, with their sections, their keys, and their places in sections that are arrays;
* `Gives`, `IsSection` : what a document says of a setting, wherever it stands among the keys;
* `Describes` : settings that have the values a document gives, and defaults for those it does not give;
* `ofTable?_eq_some_iff` : the settings of a document are those that it describes;
* `validate_cases` : the two checks, the one of the exit code first;
* `parsed_by_description` : the configuration of a text, or why it has none.
-/

namespace ManagedRuntime

open Toml

set_option autoImplicit false

/-! ## Settings of a document -/

inductive Setting where
  | intercept
  | signals
  | exitCode
  | reportUnhandled
deriving DecidableEq

namespace Setting

def home : Setting → String
  | .intercept | .signals => "faults"
  | .exitCode | .reportUnhandled => "exit"

/-- Its name in a section that is a table. -/
def key : Setting → String
  | .intercept => "intercept"
  | .signals => "signals"
  | .exitCode => "unhandled_exception_code"
  | .reportUnhandled => "report_unhandled"

/-- Its place in a section that is an array. -/
def place : Setting → Nat
  | .intercept | .exitCode => 0
  | .signals | .reportUnhandled => 1

theorem key_ne_momentKey (setting : Setting) : setting.key ≠ momentKey := by
  cases setting <;> decide

end Setting

/-- The value of a setting as a document has it. -/
def Configuration.value (c : Configuration) : Setting → Value
  | .intercept => .boolean c.intercept
  | .signals => .array (c.signals.map fun n => .text n.name)
  | .exitCode => .integer c.exitCode.toInt
  | .reportUnhandled => .boolean c.reportUnhandled

/-- What may stand for a section: a table, an array, or a date or time. -/
inductive IsSection : Value → Prop where
  | table (entries : Table) : IsSection (.table entries)
  | array (items : List Value) : IsSection (.array items)
  | moment (spelling : String) : IsSection (.moment spelling)

/-- A section gives a value to a setting. A date or time gives none to any. -/
inductive SectionGives (setting : Setting) (v : Value) : Value → Prop where
  | named {entries : Table} (h : (setting.key, v) ∈ entries) : SectionGives setting v (.table entries)
  | placed {items : List Value} (h : items[setting.place]? = some v) : SectionGives setting v (.array items)

/-- A document gives a value to a setting. -/
def Gives (table : Table) (setting : Setting) (v : Value) : Prop :=
  ∃ content, (setting.home, content) ∈ table ∧ SectionGives setting v content

/-- What stands for the section of a setting may stand for one. -/
def HasSection (table : Table) (setting : Setting) : Prop :=
  ∀ content, (setting.home, content) ∈ table → IsSection content

/-- The settings that a document stands for, given or by default. -/
@[mk_iff] structure Describes (table : Table) (c : Configuration) : Prop where
  sections (setting : Setting) : HasSection table setting
  given (setting : Setting) (v : Value) (h : Gives table setting v) : v = c.value setting
  absent (setting : Setting) (h : ∀ v, ¬ Gives table setting v) :
    c.value setting = Configuration.default.value setting

/-- A text is a document that describes some settings. -/
def Reads (standard : Standard) (cs : List Char) (c : Configuration) : Prop :=
  ∃ table, standard.Denotes cs table ∧ Describes table c

namespace Configuration

/-! ## Types -/

section

variable {toml : Library} {standard : Standard} (h : toml.Implements standard)

include h

theorem readBoolean_eq_some_iff {v : Value} {b : Bool} : readBoolean toml v = some b ↔ v = .boolean b := by
  unfold readBoolean
  rcases h.visit_cases v with heq | ⟨spelling, s, rfl, heq⟩
  · rw [heq]
    cases v <;> simp [Value.visit]
  · simp [heq]

theorem readText_eq_some_iff {v : Value} {t : String} : readText toml v = some t ↔ v = .text t := by
  unfold readText
  rcases h.visit_cases v with heq | ⟨spelling, s, rfl, heq⟩
  · rw [heq]
    cases v <;> simp [Value.visit]
  · simp [heq]

theorem readName_eq_some_iff {v : Value} {n : SignalName} :
    (readText toml v).map SignalName.mk = some n ↔ v = .text n.name := by
  rw [Option.map_eq_some_iff, ← readText_eq_some_iff h]
  exact ⟨fun ⟨t, ht, hn⟩ => hn ▸ ht, fun ht => ⟨n.name, ht, rfl⟩⟩

theorem mapM_readName_eq_some_iff {items : List Value} {ns : List SignalName} :
    (items.mapM fun item => (readText toml item).map SignalName.mk) = some ns ↔
      items = ns.map fun n => .text n.name := by
  induction items generalizing ns with
  | nil => cases ns <;> simp
  | cons v items ih =>
    cases ns with
    | nil => simp [Option.bind_eq_some_iff]
    | cons n ns => simp [Option.bind_eq_some_iff, readName_eq_some_iff h, ih, -Option.map_eq_some_iff]

theorem readNames_eq_some_iff {v : Value} {ns : List SignalName} :
    readNames toml v = some ns ↔ v = .array (ns.map fun n => .text n.name) := by
  unfold readNames
  rcases h.visit_cases v with heq | ⟨spelling, s, rfl, heq⟩
  · rw [heq]
    cases v <;> simp [Value.visit, mapM_readName_eq_some_iff h]
  · simp [heq]

theorem readWord_eq_some_iff {v : Value} {w : Int32} : readWord toml v = some w ↔ v = .integer w.toInt := by
  have hword : ∀ i, Decimal.toWord? i = some w ↔ i = w.toInt := by
    intro i
    simp only [Decimal.toWord?, Option.ite_none_right_eq_some, Option.some_inj]
    constructor
    · rintro ⟨⟨hlow, hhigh⟩, rfl⟩
      exact (Int32.toInt_ofInt_of_le hlow (Int.lt_add_one_iff.2 hhigh)).symm
    · rintro rfl
      exact ⟨⟨w.minValue_le_toInt, w.toInt_le⟩, w.ofInt_toInt⟩
  unfold readWord
  rcases h.visit_cases v with heq | ⟨spelling, s, rfl, heq⟩
  · rw [heq]
    cases v <;> simp [Value.visit, hword]
  · simp [heq]

end

/-- A value that is given has the right type, or there is none. -/
theorem optional_eq_some_iff {α : Type} {read : Value → Option α} {write : α → Value} {value? : Option Value} {d a : α}
    (h : ∀ v a, read v = some a ↔ v = write a) :
    optional read value? d = some a ↔ (∀ v, value? = some v → v = write a) ∧ (value? = none → write a = write d) := by
  cases value? with
  | none =>
    have hwrite : write a = write d ↔ d = a := by
      rw [eq_comm, ← h, (h _ d).2 rfl, Option.some_inj]
    simp [optional, hwrite]
  | some v => simp [optional, h]

/-! ## Sections -/

section

variable {toml : Library} {standard : Standard} (h : toml.Implements standard)

include h

theorem sectionValues_isSome_iff {names : List String} {v : Value} :
    (sectionValues toml names v).isSome ↔ IsSection v := by
  unfold sectionValues
  rcases h.visit_cases v with heq | ⟨spelling, s, rfl, heq⟩
  · rw [heq]
    cases v with
    | table entries => exact iff_of_true rfl (.table entries)
    | array items => exact iff_of_true rfl (.array items)
    | moment spelling => exact iff_of_true rfl (.moment spelling)
    | text | integer | float | boolean => exact iff_of_false nofun nofun
  · rw [heq]
    exact iff_of_true rfl (.moment spelling)

theorem sectionValues_getD {names : List String} {content : Value} {values : List (Option Value)} {setting : Setting}
    (hvalues : sectionValues toml names content = some values) (hd : content.Distinct)
    (hk : names[setting.place]? = some setting.key) (v : Value) :
    values.getD setting.place none = some v ↔ SectionGives setting v content := by
  have hplace : setting.place < names.length := (List.getElem?_eq_some_iff.1 hk).1
  rw [List.getD_eq_getElem?_getD]
  unfold sectionValues at hvalues
  cases content with
  | table entries =>
    rw [h.visit_table] at hvalues
    cases hvalues
    rw [List.getElem?_map, hk, Option.map_some, Option.getD_some,
      ← mem_iff_lookup (Value.distinct_table_iff.1 hd).keys]
    exact ⟨.named, fun | .named h => h⟩
  | array items =>
    rw [h.visit_array] at hvalues
    cases hvalues
    rw [List.getElem?_map, List.getElem?_range hplace, Option.map_some, Option.getD_some]
    exact ⟨.placed, fun | .placed h => h⟩
  | moment spelling =>
    obtain ⟨s, hs⟩ := h.visit_moment spelling
    rw [hs] at hvalues
    cases hvalues
    rw [List.getElem?_map, hk, Option.map_some, Option.getD_some, lookup_cons_ite, if_neg setting.key_ne_momentKey]
    exact iff_of_false nofun nofun
  | text | integer | float | boolean =>
    simp [h.visit_text, h.visit_integer, h.visit_float, h.visit_boolean] at hvalues

variable {table : Table} (hd : table.Distinct)

include hd

/-- A value is found for a setting if the document gives it. -/
theorem valuesOf_getD {names : List String} {values : List (Option Value)} {setting : Setting}
    (hvalues : valuesOf toml table setting.home names = some values)
    (hk : names[setting.place]? = some setting.key) (v : Value) :
    values.getD setting.place none = some v ↔ Gives table setting v := by
  unfold valuesOf at hvalues
  cases hl : table.lookup setting.home with
  | none =>
    rw [hl] at hvalues
    cases hvalues
    rw [List.getD_eq_getElem?_getD, List.getElem?_map, hk]
    refine iff_of_false nofun ?_
    rintro ⟨content, hm, -⟩
    rw [mem_iff_lookup hd.keys, hl] at hm
    cases hm
  | some content =>
    rw [hl] at hvalues
    rw [sectionValues_getD h hvalues (hd.values _ (mem_of_lookup hl)) hk]
    refine ⟨fun hc => ⟨content, mem_of_lookup hl, hc⟩, ?_⟩
    rintro ⟨content', hm, hc⟩
    rw [mem_iff_lookup hd.keys, hl] at hm
    cases hm
    exact hc

theorem valuesOf_isSome_iff (names : List String) (setting : Setting) :
    (valuesOf toml table setting.home names).isSome ↔ HasSection table setting := by
  unfold valuesOf HasSection
  simp only [mem_iff_lookup hd.keys]
  cases table.lookup setting.home with
  | none => exact iff_of_true rfl nofun
  | some content =>
    refine (sectionValues_isSome_iff h).trans ⟨?_, fun hs => hs content rfl⟩
    rintro hs _ ⟨⟩
    exact hs

/-- A setting is read as the document describes it. -/
theorem optional_getD_iff {α : Type} {read : Value → Option α} {write : α → Value} {names : List String}
    {values : List (Option Value)} (setting : Setting) (d a : α)
    (hvalues : valuesOf toml table setting.home names = some values)
    (hk : names[setting.place]? = some setting.key) (hread : ∀ v a, read v = some a ↔ v = write a) :
    optional read (values.getD setting.place none) d = some a ↔
      (∀ v, Gives table setting v → v = write a) ∧ ((∀ v, ¬ Gives table setting v) → write a = write d) := by
  have hgives := valuesOf_getD h hd hvalues hk
  have hnone : values.getD setting.place none = none ↔ ∀ v, ¬ Gives table setting v := by
    simp only [Option.eq_none_iff_forall_ne_some, ne_eq, hgives]
  rw [optional_eq_some_iff hread, hnone]
  simp only [hgives]

theorem agrees_iff {faults exit : List (Option Value)}
    (hf : valuesOf toml table "faults" ["intercept", "signals"] = some faults)
    (he : valuesOf toml table "exit" ["unhandled_exception_code", "report_unhandled"] = some exit)
    (c : Configuration) :
    (∀ setting, (∀ v, Gives table setting v → v = c.value setting) ∧
        ((∀ v, ¬ Gives table setting v) → c.value setting = default.value setting)) ↔
      optional (readBoolean toml) (faults.getD 0 none) default.intercept = some c.intercept ∧
      optional (readNames toml) (faults.getD 1 none) default.signals = some c.signals ∧
      optional (readWord toml) (exit.getD 0 none) default.exitCode = some c.exitCode ∧
      optional (readBoolean toml) (exit.getD 1 none) default.reportUnhandled = some c.reportUnhandled := by
  have hintercept := optional_getD_iff h hd .intercept default.intercept c.intercept hf rfl
    fun _ _ => readBoolean_eq_some_iff h
  have hsignals := optional_getD_iff h hd .signals default.signals c.signals hf rfl
    fun _ _ => readNames_eq_some_iff h
  have hexitCode := optional_getD_iff h hd .exitCode default.exitCode c.exitCode he rfl
    fun _ _ => readWord_eq_some_iff h
  have hreport := optional_getD_iff h hd .reportUnhandled default.reportUnhandled c.reportUnhandled he rfl
    fun _ _ => readBoolean_eq_some_iff h
  constructor
  · intro hall
    exact ⟨hintercept.2 (hall .intercept), hsignals.2 (hall .signals), hexitCode.2 (hall .exitCode),
      hreport.2 (hall .reportUnhandled)⟩
  · rintro ⟨hi, hs, hc, hr⟩ setting
    cases setting with
    | intercept => exact hintercept.1 hi
    | signals => exact hsignals.1 hs
    | exitCode => exact hexitCode.1 hc
    | reportUnhandled => exact hreport.1 hr

/-- **The settings of a document are those that it describes.** -/
theorem ofTable?_eq_some_iff (c : Configuration) : ofTable? toml table = some c ↔ Describes table c := by
  constructor
  · intro hc
    obtain ⟨faults, hf, hc⟩ := Option.bind_eq_some_iff.1 hc
    obtain ⟨exit, he, hc⟩ := Option.bind_eq_some_iff.1 hc
    obtain ⟨intercept, hintercept, hc⟩ := Option.bind_eq_some_iff.1 hc
    obtain ⟨signals, hsignals, hc⟩ := Option.bind_eq_some_iff.1 hc
    obtain ⟨exitCode, hexitCode, hc⟩ := Option.bind_eq_some_iff.1 hc
    obtain ⟨reportUnhandled, hreport, hc⟩ := Option.bind_eq_some_iff.1 hc
    cases hc
    have hall := (agrees_iff h hd hf he ⟨intercept, signals, exitCode, reportUnhandled⟩).2
      ⟨hintercept, hsignals, hexitCode, hreport⟩
    refine ⟨fun setting => ?_, fun setting => (hall setting).1, fun setting => (hall setting).2⟩
    cases setting with
    | intercept | signals => exact (valuesOf_isSome_iff h hd _ .intercept).1 (Option.isSome_of_eq_some hf)
    | exitCode | reportUnhandled => exact (valuesOf_isSome_iff h hd _ .exitCode).1 (Option.isSome_of_eq_some he)
  · intro hdescribes
    obtain ⟨faults, hf⟩ := Option.isSome_iff_exists.1
      ((valuesOf_isSome_iff h hd ["intercept", "signals"] .intercept).2 (hdescribes.sections .intercept))
    obtain ⟨exit, he⟩ := Option.isSome_iff_exists.1
      ((valuesOf_isSome_iff h hd ["unhandled_exception_code", "report_unhandled"] .exitCode).2
        (hdescribes.sections .exitCode))
    obtain ⟨hintercept, hsignals, hexitCode, hreport⟩ :=
      (agrees_iff h hd hf he c).1 fun setting => ⟨hdescribes.given setting, hdescribes.absent setting⟩
    refine Option.bind_eq_some_iff.2 ⟨faults, hf, Option.bind_eq_some_iff.2 ⟨exit, he, ?_⟩⟩
    simp only [hintercept, hsignals, hexitCode, hreport]
    rfl

end

end Configuration

/-! ## Validation -/

/-- The names of signals that a configuration may list. -/
def Signal.names : List String := ["SIGFPE", "SIGSEGV", "SIGILL", "SIGBUS"]

theorem Signal.mem_names_iff {name : String} : name ∈ Signal.names ↔ ∃ signal : Signal, signal.name = name := by
  constructor
  · rintro (_ | ⟨_, _ | ⟨_, _ | ⟨_, _ | ⟨_, ⟨⟩⟩⟩⟩⟩)
    exacts [⟨.fpe, rfl⟩, ⟨.segv, rfl⟩, ⟨.ill, rfl⟩, ⟨.bus, rfl⟩]
  · rintro ⟨signal, rfl⟩
    cases signal <;> decide

theorem Signal.ofName?_eq_none_iff {name : String} : Signal.ofName? name = none ↔ name ∉ Signal.names := by
  rw [Signal.mem_names_iff, Option.eq_none_iff_forall_ne_some, not_exists]
  simp only [ne_eq, Signal.ofName?_eq_some_iff]

namespace Configuration

/-- The codes that a process can end with after a failure. -/
abbrev InRange (code : Int32) : Prop := 1 ≤ code.toInt ∧ code.toInt ≤ 255

structure Valid (c : Configuration) : Prop where
  range : InRange c.exitCode
  known : ∀ n ∈ c.signals, n.name ∈ Signal.names

variable {c : Configuration}

theorem unknown?_eq_none_iff : c.unknown? = none ↔ ∀ n ∈ c.signals, n.name ∈ Signal.names := by
  simp only [unknown?, List.find?_eq_none, Option.isNone_iff_eq_none, Signal.ofName?_eq_none_iff, not_not]

/-- The first unknown name is the one that is reported. -/
theorem unknown?_eq_some_iff {n : SignalName} :
    c.unknown? = some n ↔ ∃ known rest, c.signals = known ++ n :: rest ∧
      (∀ k ∈ known, k.name ∈ Signal.names) ∧ n.name ∉ Signal.names := by
  have hknown : ∀ k : SignalName, (!(Signal.ofName? k.name).isNone) = true ↔ k.name ∈ Signal.names := by
    intro k
    rw [Bool.not_eq_true', ← Bool.not_eq_true, Option.isNone_iff_eq_none, Signal.ofName?_eq_none_iff, not_not]
  rw [unknown?, List.find?_eq_some_iff_append, Option.isNone_iff_eq_none, Signal.ofName?_eq_none_iff]
  simp only [hknown]
  constructor
  · rintro ⟨hn, known, rest, hsignals, hk⟩
    exact ⟨known, rest, hsignals, hk, hn⟩
  · rintro ⟨known, rest, hsignals, hk, hn⟩
    exact ⟨hn, known, rest, hsignals, hk⟩

/-- What validation comes to: the exit code is looked at first. -/
theorem validate_cases (c : Configuration) :
    (¬ InRange c.exitCode ∧ c.validate = .error (.exitCode c.exitCode)) ∨
    (∃ n, InRange c.exitCode ∧ c.unknown? = some n ∧ c.validate = .error (.unknownSignal n.name)) ∨
    (c.Valid ∧ c.validate = .ok ()) := by
  by_cases hrange : InRange c.exitCode
  · cases hn : c.unknown? with
    | some n => exact .inr (.inl ⟨n, hrange, rfl, by rw [validate, if_pos hrange, hn]⟩)
    | none => exact .inr (.inr ⟨⟨hrange, unknown?_eq_none_iff.1 hn⟩, by rw [validate, if_pos hrange, hn]⟩)
  · exact .inl ⟨hrange, if_neg hrange⟩

theorem validate_eq_ok_iff : c.validate = .ok () ↔ c.Valid := by
  rcases c.validate_cases with ⟨hrange, h⟩ | ⟨n, -, hn, h⟩ | ⟨hvalid, h⟩ <;> rw [h]
  · exact iff_of_false nofun fun hvalid => hrange hvalid.range
  · refine iff_of_false nofun fun hvalid => ?_
    rw [unknown?_eq_none_iff.2 hvalid.known] at hn
    cases hn
  · exact iff_of_true rfl hvalid

theorem validate_eq_exitCode_iff {code : Int32} :
    c.validate = .error (.exitCode code) ↔ c.exitCode = code ∧ ¬ InRange code := by
  rcases c.validate_cases with ⟨hrange, h⟩ | ⟨n, hrange, -, h⟩ | ⟨hvalid, h⟩ <;> rw [h]
  · constructor
    · rintro ⟨⟩
      exact ⟨rfl, hrange⟩
    · rintro ⟨rfl, -⟩
      rfl
  · exact iff_of_false nofun fun ⟨hcode, hout⟩ => hout (hcode ▸ hrange)
  · exact iff_of_false nofun fun ⟨hcode, hout⟩ => hout (hcode ▸ hvalid.range)

theorem validate_eq_unknownSignal_iff {name : String} :
    c.validate = .error (.unknownSignal name) ↔ InRange c.exitCode ∧ c.unknown? = some ⟨name⟩ := by
  rcases c.validate_cases with ⟨hrange, h⟩ | ⟨n, hrange, hn, h⟩ | ⟨hvalid, h⟩ <;> rw [h]
  · exact iff_of_false nofun fun hunknown => hrange hunknown.1
  · constructor
    · rintro ⟨⟩
      exact ⟨hrange, hn⟩
    · rintro ⟨-, hname⟩
      rw [hn] at hname
      cases hname
      rfl
  · refine iff_of_false nofun fun hunknown => ?_
    rw [unknown?_eq_none_iff.2 hvalid.known] at hunknown
    cases hunknown.2

theorem validate_ne_parse : c.validate ≠ .error .parse := by
  rcases c.validate_cases with ⟨-, h⟩ | ⟨n, -, -, h⟩ | ⟨-, h⟩ <;> rw [h] <;> exact nofun

theorem validate_ne_read (reason : Unreadable) : c.validate ≠ .error (.read reason) := by
  rcases c.validate_cases with ⟨-, h⟩ | ⟨n, -, -, h⟩ | ⟨-, h⟩ <;> rw [h] <;> exact nofun

/-! ## Signals -/

/-- The names that are listed are those of the signals that are looked up. -/
theorem Valid.lookup (h : c.Valid) : c.listed.map (fun signal => ⟨signal.name⟩) = c.signals := by
  have hname : ∀ n ∈ c.signals, (Signal.ofName? n.name).map (fun signal => SignalName.mk signal.name) = some n := by
    intro n hn
    obtain ⟨signal, hsignal⟩ := Signal.mem_names_iff.1 (h.known n hn)
    rw [Signal.ofName?_eq_some_iff.2 hsignal, Option.map_some, hsignal]
  rw [listed, List.map_filterMap, List.filterMap_congr hname, List.filterMap_some]

/-! ## Configurations of texts -/

theorem map_validate_eq_ok_iff {c' : Configuration} : (c.validate.map fun _ => c) = .ok c' ↔ c.Valid ∧ c = c' := by
  rw [← validate_eq_ok_iff]
  cases c.validate <;> simp [Except.map]

theorem map_validate_eq_error_iff {e : Error} :
    (c.validate.map fun _ => c) = .error e ↔ c.validate = .error e := by
  cases c.validate <;> simp [Except.map]

/-- Whatever the library, what it reads is validated. -/
theorem valid_of_parseBy {toml : Library} {cs : List Char} (h : parseBy toml cs = .ok c) : c.Valid := by
  unfold parseBy at h
  split at h
  · obtain ⟨hvalid, rfl⟩ := map_validate_eq_ok_iff.1 h
    exact hvalid
  · cases h

section

variable {toml : Library} {standard : Standard} (h : toml.Implements standard) {cs : List Char}

include h

theorem reads_iff : Reads standard cs c ↔ (toml.read cs).bind (ofTable? toml) = some c := by
  rw [Option.bind_eq_some_iff]
  constructor
  · rintro ⟨table, hdenotes, hc⟩
    exact ⟨table, (h.read_eq_some_iff cs table).2 hdenotes,
      (ofTable?_eq_some_iff h (standard.distinct hdenotes) c).2 hc⟩
  · rintro ⟨table, hread, hc⟩
    have hdenotes := (h.read_eq_some_iff cs table).1 hread
    exact ⟨table, hdenotes, (ofTable?_eq_some_iff h (standard.distinct hdenotes) c).1 hc⟩

theorem parseBy_of_reads (hreads : Reads standard cs c) : parseBy toml cs = c.validate.map fun _ => c := by
  rw [parseBy, (reads_iff h).1 hreads]

theorem parseBy_of_not_reads (hreads : ∀ c, ¬ Reads standard cs c) : parseBy toml cs = .error .parse := by
  have hnone : (toml.read cs).bind (ofTable? toml) = none :=
    Option.eq_none_iff_forall_ne_some.2 fun c hc => hreads c ((reads_iff h).2 hc)
  rw [parseBy, hnone]

/-- What a text is parsed to, other than an error of its form, comes from the settings that it describes. -/
theorem parseBy_eq_iff (result : Except Error Configuration) (hresult : result ≠ .error .parse) :
    parseBy toml cs = result ↔ ∃ c, Reads standard cs c ∧ (c.validate.map fun _ => c) = result := by
  constructor
  · intro hparse
    by_cases hreads : ∃ c, Reads standard cs c
    · obtain ⟨c, hc⟩ := hreads
      exact ⟨c, hc, (parseBy_of_reads h hc).symm.trans hparse⟩
    · rw [parseBy_of_not_reads h (not_exists.1 hreads)] at hparse
      exact absurd hparse.symm hresult
  · rintro ⟨c, hc, hresult⟩
    exact (parseBy_of_reads h hc).trans hresult

theorem parseBy_eq_ok_iff : parseBy toml cs = .ok c ↔ Reads standard cs c ∧ c.Valid := by
  rw [parseBy_eq_iff h (.ok c) nofun]
  simp only [map_validate_eq_ok_iff]
  constructor
  · rintro ⟨_, hreads, hvalid, rfl⟩
    exact ⟨hreads, hvalid⟩
  · rintro ⟨hreads, hvalid⟩
    exact ⟨c, hreads, hvalid, rfl⟩

theorem parseBy_eq_error_iff (e : Error) (he : e ≠ .parse) :
    parseBy toml cs = .error e ↔ ∃ c, Reads standard cs c ∧ c.validate = .error e := by
  rw [parseBy_eq_iff h (.error e) fun heq => he (Except.error.inj heq)]
  simp only [map_validate_eq_error_iff]

theorem parseBy_eq_parse_iff : parseBy toml cs = .error .parse ↔ ∀ c, ¬ Reads standard cs c := by
  refine ⟨fun herror c hc => ?_, parseBy_of_not_reads h⟩
  rw [parseBy_of_reads h hc, map_validate_eq_error_iff] at herror
  exact validate_ne_parse herror

end

end Configuration

/-- Two documents say the same of all settings. -/
structure SameSettings (table table' : Table) : Prop where
  sections (setting : Setting) : HasSection table setting ↔ HasSection table' setting
  given (setting : Setting) (v : Value) : Gives table setting v ↔ Gives table' setting v

theorem describes_iff_of_same {table table' : Table} (h : SameSettings table table') (c : Configuration) :
    Describes table c ↔ Describes table' c := by
  simp only [describes_iff, h.sections, h.given]

theorem ofTable?_of_same {toml : Library} {standard : Standard} (h : toml.Implements standard) {table table' : Table}
    (hd : table.Distinct) (hd' : table'.Distinct) (hsame : SameSettings table table') :
    Configuration.ofTable? toml table = Configuration.ofTable? toml table' := by
  refine Option.ext fun c => ?_
  rw [Configuration.ofTable?_eq_some_iff h hd, Configuration.ofTable?_eq_some_iff h hd', describes_iff_of_same hsame]

/-- What becomes of a text that is taken for a configuration, with a library for documents as a standard has them. -/
structure ParsedByDescription (toml : Library) (standard : Standard) (cs : List Char) : Prop where
  accepted (c : Configuration) : Configuration.parseBy toml cs = .ok c ↔
    Reads standard cs c ∧ Configuration.InRange c.exitCode ∧ ∀ n ∈ c.signals, n.name ∈ Signal.names
  malformed : Configuration.parseBy toml cs = .error .parse ↔ ∀ c, ¬ Reads standard cs c
  exitCode (code : Int32) : Configuration.parseBy toml cs = .error (.exitCode code) ↔
    ∃ c, Reads standard cs c ∧ c.exitCode = code ∧ ¬ Configuration.InRange code
  unknownSignal (name : String) : Configuration.parseBy toml cs = .error (.unknownSignal name) ↔
    ∃ c, Reads standard cs c ∧ Configuration.InRange c.exitCode ∧ ∃ known rest, c.signals = known ++ ⟨name⟩ :: rest ∧
      (∀ n ∈ known, n.name ∈ Signal.names) ∧ name ∉ Signal.names
  /-- There are no other errors. -/
  readable (reason : Configuration.Unreadable) : Configuration.parseBy toml cs ≠ .error (.read reason)
  /-- Neither the order of keys nor what is said of anything else matters. -/
  settingsOnly (cs' : List Char) (table table' : Table) : standard.Denotes cs table → standard.Denotes cs' table' →
    SameSettings table table' → Configuration.parseBy toml cs = Configuration.parseBy toml cs'
  /-- No signal is lost between the list of names and the handlers. -/
  installed (c : Configuration) : Configuration.parseBy toml cs = .ok c →
    c.listed.map (fun signal => ⟨signal.name⟩) = c.signals ∧
    ∀ p : Execution.Process, p.installed = false → c.intercept = true →
      ∀ n ∈ c.signals, ∃ signal : Signal, signal.name = n.name ∧ (p.install c).disposition signal = .intercept

/--
**Which texts are configurations.** A text is accepted if it is a document whose sections and settings have the right
types, with an exit code that is in range and names of signals that are known. What it gives is then the configuration,
with defaults for what it does not give. Otherwise the first of these conditions that it does not meet is the error.
-/
theorem parsed_by_description {toml : Library} {standard : Standard} (h : toml.Implements standard) (cs : List Char) :
    ParsedByDescription toml standard cs where
  accepted c := by
    rw [Configuration.parseBy_eq_ok_iff h]
    exact and_congr_right fun _ => ⟨fun hc => ⟨hc.range, hc.known⟩, fun hc => ⟨hc.1, hc.2⟩⟩
  malformed := Configuration.parseBy_eq_parse_iff h
  exitCode code := by
    rw [Configuration.parseBy_eq_error_iff h (.exitCode code) nofun]
    simp only [Configuration.validate_eq_exitCode_iff]
  unknownSignal name := by
    rw [Configuration.parseBy_eq_error_iff h (.unknownSignal name) nofun]
    simp only [Configuration.validate_eq_unknownSignal_iff, Configuration.unknown?_eq_some_iff]
  readable reason hread := by
    obtain ⟨c, -, hc⟩ := (Configuration.parseBy_eq_error_iff h (.read reason) nofun).1 hread
    exact Configuration.validate_ne_read reason hc
  settingsOnly cs' table table' hdenotes hdenotes' hsame := by
    have hread := (h.read_eq_some_iff cs table).2 hdenotes
    have hread' := (h.read_eq_some_iff cs' table').2 hdenotes'
    have hsettings := ofTable?_of_same h (standard.distinct hdenotes) (standard.distinct hdenotes') hsame
    rw [Configuration.parseBy, Configuration.parseBy, hread, hread', Option.bind_some, Option.bind_some, hsettings]
  installed c hc := by
    obtain ⟨-, hvalid⟩ := (Configuration.parseBy_eq_ok_iff h).1 hc
    refine ⟨hvalid.lookup, fun p hp hi n hn => ?_⟩
    obtain ⟨signal, hsignal⟩ := Signal.mem_names_iff.1 (hvalid.known n hn)
    refine ⟨signal, hsignal, ?_⟩
    rw [Execution.Process.install, hp, if_neg Bool.false_ne_true, if_pos hi]
    refine if_pos (Configuration.mem_listed_iff.2 ?_)
    rwa [hsignal]

/-- One setting is given, the others have their defaults. -/
theorem parsed_by_description_exitCode :
    Library.plain.Implements .plain ∧
    Reads .plain "[exit]\nunhandled_exception_code = 3\n".toList { Configuration.default with exitCode := 3 } := by
  have hparse : Configuration.parseBy .plain "[exit]\nunhandled_exception_code = 3\n".toList =
      .ok { Configuration.default with exitCode := 3 } := by cbv
  exact ⟨plain_implements, (((parsed_by_description plain_implements _).accepted _).1 hparse).1⟩

/-- A date in the place of a section is accepted, although it is neither a table nor an array. -/
theorem date_accepted :
    Library.plain.Implements .plain ∧
    Standard.plain.Denotes "faults = 1979-05-27\n".toList [("faults", .moment "1979-05-27")] ∧
    Configuration.parseBy .plain "faults = 1979-05-27\n".toList = .ok .default := by
  refine ⟨plain_implements, ?_, ?_⟩
  · show Document.parse "faults = 1979-05-27\n".toList = some [("faults", .moment "1979-05-27")]
    cbv
  · cbv

end ManagedRuntime
