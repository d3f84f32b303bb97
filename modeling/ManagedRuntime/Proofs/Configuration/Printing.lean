import ManagedRuntime.CommandLine.Outcome
import ManagedRuntime.Proofs.Configuration.Acceptance
import ManagedRuntime.Proofs.Encoding.Utf8

/-!
# Printed configurations

* `gives_toTable_iff`, `isPlain_toTable` : the document of a configuration gives every setting, and can be laid out;
* `parseBy_of_toTable` : the text of such a document is read as the configuration;
* `exists_parseBy_iff` : the configurations of texts are those that are valid;
* `printed_configuration_reads_back` : what is printed for a configuration is read as it, and printed again as it is.
-/

namespace ManagedRuntime

set_option autoImplicit false

open Toml

/-! ## The document -/

theorem sectionGives_table_iff {setting : Setting} {v : Value} {entries : Table} :
    SectionGives setting v (.table entries) ↔ (setting.key, v) ∈ entries := ⟨fun | .named h => h, .named⟩

namespace Configuration

variable {c : Configuration}

/-- Every setting is given, and so nothing is left to a default. -/
theorem gives_toTable_iff {setting : Setting} {v : Value} : Gives c.toTable setting v ↔ v = c.value setting := by
  cases setting <;>
    simp [Gives, toTable, sectionGives_table_iff, Setting.home, Setting.key, value]

theorem describes_toTable (c : Configuration) : Describes c.toTable c where
  sections setting content hcontent := by
    simp only [toTable, List.mem_cons, Prod.mk.injEq, List.not_mem_nil, or_false] at hcontent
    obtain ⟨-, rfl⟩ | ⟨-, rfl⟩ := hcontent <;> exact .table _
  given _ _ h := gives_toTable_iff.1 h
  absent setting h := absurd (gives_toTable_iff.2 rfl) (h (c.value setting))

/-- Names of signals need no escapes, and an exit code has no sign. -/
theorem isPlain_toTable (h : c.Valid) : c.toTable.isPlain = true := by
  have hsignals : (c.signals.map fun n => Value.text n.name).all Value.isVerbatim = true := by
    rw [List.all_map, List.all_eq_true]
    intro n hn
    obtain ⟨signal, hsignal⟩ := Signal.mem_names_iff.1 (h.known n hn)
    show (Value.text n.name).isVerbatim = true
    rw [← hsignal]
    cases signal <;> rfl
  have hcode : 0 ≤ c.exitCode.toInt ∧ c.exitCode.toInt < 0x8000000000000000 := by
    obtain ⟨hlow, hhigh⟩ := h.range
    omega
  have hkeys : c.toTable.hasPlainKeys = true := rfl
  have hfaults : Table.hasPlainKeys [("intercept", .boolean c.intercept),
      ("signals", .array (c.signals.map fun n => .text n.name))] = true := rfl
  have hexit : Table.hasPlainKeys [("unhandled_exception_code", .integer c.exitCode.toInt),
      ("report_unhandled", .boolean c.reportUnhandled)] = true := rfl
  rw [Table.isPlain, hkeys]
  simp [toTable, Table.isSection, hfaults, hexit, hsignals, hcode, Value.isPlain]

section

variable {toml : Library} {standard : Standard} (h : toml.Implements standard)

include h

/-- Whatever text the document of a configuration has, it is read as the configuration. -/
theorem parseBy_of_toTable {text : List Char} (hvalid : c.Valid) (htext : standard.Denotes text c.toTable) :
    parseBy toml text = .ok c :=
  (parseBy_eq_ok_iff h).2 ⟨⟨c.toTable, htext, c.describes_toTable⟩, hvalid⟩

/-- The configurations of texts are those that are valid: lists of known signals, and exit codes in range. -/
theorem exists_parseBy_iff : (∃ cs, parseBy toml cs = .ok c) ↔ c.Valid := by
  constructor
  · rintro ⟨cs, hcs⟩
    exact ((parseBy_eq_ok_iff h).1 hcs).2
  · intro hvalid
    exact ⟨_, parseBy_of_toTable h hvalid (standard.denotes_layout (isPlain_toTable hvalid))⟩

end

end Configuration

/-! ## Printing it again -/

/-- What is printed for a configuration stands for it, and for nothing else. -/
structure PrintsItself (toml : Library) (standard : Standard) (c : Configuration) (text : List Char) : Prop where
  printed : c.printBy toml = .ok text
  /-- The text is a document that gives every setting, so that no default takes its place. -/
  given : ∃ table, standard.Denotes text table ∧ ∀ setting, Gives table setting (c.value setting)
  parsed : Configuration.parseBy toml text = .ok c
  /-- The tool prints it for every file with this configuration, behind a line of its own. -/
  checked (file : String) (contents : Configuration.Contents) : Configuration.loadBy toml contents = .ok c →
    (CommandLine.Request.check file).outcome toml contents = .printing (file.toList ++ ": OK\n".toList ++ text)
  /-- In the place of the file, what has been printed has the same outcome. -/
  again (file : String) (contents : Configuration.Contents) : Configuration.loadBy toml contents = .ok c →
    (CommandLine.Request.check file).outcome toml (.ok (Utf8.encode text)) =
      (CommandLine.Request.check file).outcome toml contents

section

variable {toml : Library} {c : Configuration} {text : List Char}

theorem outcome_check {contents : Configuration.Contents} (h : Configuration.loadBy toml contents = .ok c)
    (hprinted : c.printBy toml = .ok text) (file : String) :
    (CommandLine.Request.check file).outcome toml contents =
      .printing (file.toList ++ ": OK\n".toList ++ text) := by
  unfold CommandLine.Request.outcome
  rw [h]
  dsimp only
  rw [hprinted]
  simp [CommandLine.printedLines]

theorem loadBy_encode (h : Configuration.parseBy toml text = .ok c) :
    Configuration.loadBy toml (.ok (Utf8.encode text)) = .ok c := by
  unfold Configuration.loadBy
  dsimp only
  rw [Utf8.decode?_encode]
  exact h

end

/--
**Printed configurations are read back.** For every configuration of a text, what is printed gives all of its settings.
It is read as the same configuration, and is printed for its own text as for any other one.
-/
theorem printed_configuration_reads_back {toml : Library} {standard : Standard} (h : toml.Implements standard)
    {cs : List Char} {c : Configuration} (hc : Configuration.parseBy toml cs = .ok c) :
    ∃ text, PrintsItself toml standard c text := by
  have hvalid := (Configuration.exists_parseBy_iff h).1 ⟨cs, hc⟩
  obtain ⟨text, hprinted, hdenotes⟩ := h.write_denotes c.toTable (Configuration.isPlain_toTable hvalid)
  have hparsed := Configuration.parseBy_of_toTable h hvalid hdenotes
  refine ⟨text, ?_⟩
  constructor
  · exact hprinted
  · exact ⟨c.toTable, hdenotes, fun _ => Configuration.gives_toTable_iff.2 rfl⟩
  · exact hparsed
  · exact fun file contents hload => outcome_check hload hprinted file
  · intro file contents hload
    rw [outcome_check hload hprinted, outcome_check (loadBy_encode hparsed) hprinted]

/-- A signal may be listed twice. -/
theorem printed_configuration_reads_back_twice :
    ∃ c, Configuration.parseBy .plain "faults = [false, ['SIGBUS', 'SIGBUS']]\nexit = [255, false]\n".toList = .ok c ∧
      c.signals = [⟨"SIGBUS"⟩, ⟨"SIGBUS"⟩] ∧
      ∃ text, c.printBy .plain = .ok text ∧ Configuration.parseBy .plain text = .ok c := by
  have hparse : Configuration.parseBy .plain "faults = [false, ['SIGBUS', 'SIGBUS']]\nexit = [255, false]\n".toList =
      .ok { intercept := false, signals := [⟨"SIGBUS"⟩, ⟨"SIGBUS"⟩], exitCode := 255, reportUnhandled := false } := by
    cbv
  obtain ⟨text, htext⟩ := printed_configuration_reads_back plain_implements hparse
  exact ⟨_, hparse, rfl, text, htext.printed, htext.parsed⟩

example : ({ intercept := false, signals := [⟨"SIGBUS"⟩, ⟨"SIGBUS"⟩], exitCode := 255, reportUnhandled := false } :
    Configuration).printBy .plain = .ok (
      "[faults]\nintercept = false\nsignals = [\n    \"SIGBUS\",\n    \"SIGBUS\",\n]\n\n".toList ++
      "[exit]\nunhandled_exception_code = 255\nreport_unhandled = false\n".toList) := by cbv

end ManagedRuntime
