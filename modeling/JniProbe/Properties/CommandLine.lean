import JniProbe.Loader.Options

/-!
What the command line means. Flags may be written in many ways and given more
than once: every field has the value of the last flag for it. So a
configuration that is written out in full is read back, whatever stands before
it, and nothing behind the first operand counts.
-/

namespace JniProbe

open GoText GoFormat GoFlag OptionSetting

/-- Each field has the value of the last setting for it, or its default. -/
theorem last_setting_counts {xs : List OptionSetting} (hwritten : ∀ x ∈ xs, x.Written)
    {operands : List Bytes} (hoperands : ∀ arg ∈ operands.head?, endsFlags arg = true) :
    ∃ c, parseFlags (xs.flatMap words ++ operands) = .ok c ∧
      ∀ k, lastValue Options.default xs k = some (c.value k) := by
  obtain ⟨c, hfold, hlast⟩ := apply_settings hwritten Options.default
  exact ⟨c, parseFlags_words hwritten hfold hoperands, hlast⟩

/-! ### Configurations that are written out -/

/-- The text of a value. -/
def OptionValue.print : OptionValue → Bytes
  | .int v => formatInt v.toInt
  | .text v => v
  | .bool v => formatBool v

theorem OptionValue.read_print (v : OptionValue) : v.kind.read v.print = some v := by
  cases v with
  | int v =>
      have hread := GoNumber.parseInt_formatInt v.le_toInt v.toInt_lt
      simp only [OptionValue.kind, OptionKind.read, OptionValue.print, hread, Option.map_some,
        Int64.ofInt_toInt]
  | text v => rfl
  | bool v => cases v <;> decide

/-- A way to write the field `k` of the configuration `c`. -/
structure Form (c : Options) (k : OptionField) where
  option : OptionFlag
  declared : option ∈ optionFlags
  field : option.field = k
  twoDashes : Bool
  spelling : Spelling
  separate : spelling = .separate → k.kind ≠ .bool
  bare : spelling = .bare → c.value k = .bool true

namespace Form

variable {c : Options} {k : OptionField}

def setting (form : Form c k) : OptionSetting where
  option := form.option
  value := (c.value k).print
  twoDashes := form.twoDashes
  spelling := form.spelling

theorem read_setting (form : Form c k) : form.setting.read = some (c.value k) := by
  have hread := (c.value k).read_print
  rw [Options.kind_value] at hread
  rw [OptionSetting.read, setting, form.field]
  exact hread

theorem written_setting (form : Form c k) : form.setting.Written where
  declared := form.declared
  separate hs := by
    rw [setting, form.field]
    exact form.separate hs
  bare hb := by
    have htrue := form.bare hb
    have hkind := c.kind_value k
    rw [htrue] at hkind
    rw [setting, form.field, htrue]
    exact ⟨hkind.symm, rfl⟩
  read := by
    rw [form.read_setting]
    rfl

end Form

def optionFields : List OptionField :=
  [.pid, .name, .runSec, .offsets, .libart, .modes, .only, .exclude, .noReturns, .maxDepth,
    .grep, .classRe, .methodRe, .fromText, .tid, .verbose, .count, .jsonOut, .noColor, .stack]

/-- The whole configuration, one setting for each field. -/
def Options.settings (c : Options) (form : ∀ k, Form c k) : List OptionSetting :=
  optionFields.map (fun k => (form k).setting)

theorem Options.lastValue_settings (c d : Options) (form : ∀ k, Form c k)
    (earlier : List OptionSetting) (k : OptionField) :
    lastValue d (earlier ++ c.settings form) k = some (c.value k) := by
  have hone : (c.settings form).filter (fun x => x.option.field = k) = [(form k).setting] := by
    have hfield (j : OptionField) : (form j).setting.option.field = j := (form j).field
    rw [Options.settings, List.filter_map]
    simp only [Function.comp_def, hfield]
    cases k <;> rfl
  rw [lastValue, List.filter_append, hone, List.getLast?_concat]
  exact (form k).read_setting

namespace Scenario

/-- A pid twice, in decimal and in hexadecimal, then a flag behind an operand. -/
def twoPids : List OptionSetting :=
  [⟨⟨.pid, str "p"⟩, str "7", false, .separate⟩, ⟨⟨.pid, str "pid"⟩, str "0x10", true, .attached⟩,
    ⟨⟨.verbose, str "v"⟩, str "true", false, .bare⟩]

theorem written_twoPids : ∀ x ∈ twoPids, x.Written := by
  intro x hx
  simp only [twoPids, List.mem_cons, List.not_mem_nil, or_false] at hx
  rcases hx with rfl | rfl | rfl
  · exact ⟨by decide, by decide, by decide, by decide⟩
  · exact ⟨by decide, by decide, by decide, by decide⟩
  · exact ⟨by decide, by decide, by decide, by decide⟩

/-- The first flag of a field, with its value behind an equals sign. -/
def plainForm (c : Options) (k : OptionField) : Form c k where
  option := ⟨k, ((optionFlags.find? (fun o => o.field = k)).map OptionFlag.name).getD []⟩
  declared := by cases k <;> decide
  field := rfl
  twoDashes := false
  spelling := .attached
  separate h := by cases h
  bare h := by cases h

end Scenario

open Scenario in
theorem last_setting_counts_twoPids : ∃ c,
    parseFlags [str "-p", str "7", str "--pid=0x10", str "-v", str "false", str "-S"] = .ok c ∧
      c.value .pid = .int 16 ∧ c.value .verbose = .bool true ∧ c.value .stack = .bool false := by
  have hoperands : ∀ arg ∈ [str "false", str "-S"].head?, endsFlags arg = true := by decide
  obtain ⟨c, hparse, hlast⟩ := last_setting_counts written_twoPids hoperands
  refine ⟨c, hparse, ?_, ?_, ?_⟩
  · exact (Option.some.inj (hlast .pid)).symm
  · exact (Option.some.inj (hlast .verbose)).symm
  · exact (Option.some.inj (hlast .stack)).symm

end JniProbe
