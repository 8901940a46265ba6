import JniProbe.Lib.GoFlag
import JniProbe.Loader.Commands
import JniProbe.Loader.Trace

/-!
The options of the command line. Every flag sets one field of the
configuration; several fields have a short flag and a long one.
-/

namespace JniProbe

open GoText GoFlag

/-- `config`. -/
structure Options where
  pid : Int64
  name : Bytes
  runSec : Int64
  offsets : Bytes
  libart : Bytes
  modes : Bytes
  only : Bytes
  exclude : Bytes
  noReturns : Bool
  maxDepth : Int64
  grep : Bytes
  classRe : Bytes
  methodRe : Bytes
  fromText : Bytes
  tid : Int64
  verbose : Bool
  count : Bool
  jsonOut : Bool
  noColor : Bool
  stack : Bool
  deriving DecidableEq

inductive OptionField where
  | pid | name | runSec | offsets | libart | modes | only | exclude | noReturns | maxDepth
  | grep | classRe | methodRe | fromText | tid | verbose | count | jsonOut | noColor | stack
  deriving DecidableEq

inductive OptionValue where
  | int (v : Int64)
  | text (v : Bytes)
  | bool (v : Bool)
  deriving DecidableEq

inductive OptionKind where
  | int
  | text
  | bool
  deriving DecidableEq

def OptionValue.kind : OptionValue → OptionKind
  | int _ => .int
  | text _ => .text
  | bool _ => .bool

def OptionField.kind : OptionField → OptionKind
  | pid | runSec | maxDepth | tid => .int
  | noReturns | verbose | count | jsonOut | noColor | stack => .bool
  | _ => .text

namespace Options

def value (c : Options) : OptionField → OptionValue
  | .pid => .int c.pid
  | .name => .text c.name
  | .runSec => .int c.runSec
  | .offsets => .text c.offsets
  | .libart => .text c.libart
  | .modes => .text c.modes
  | .only => .text c.only
  | .exclude => .text c.exclude
  | .noReturns => .bool c.noReturns
  | .maxDepth => .int c.maxDepth
  | .grep => .text c.grep
  | .classRe => .text c.classRe
  | .methodRe => .text c.methodRe
  | .fromText => .text c.fromText
  | .tid => .int c.tid
  | .verbose => .bool c.verbose
  | .count => .bool c.count
  | .jsonOut => .bool c.jsonOut
  | .noColor => .bool c.noColor
  | .stack => .bool c.stack

/-- A value of another kind changes nothing. -/
def put (c : Options) : OptionField → OptionValue → Options
  | .pid, .int v => { c with pid := v }
  | .name, .text v => { c with name := v }
  | .runSec, .int v => { c with runSec := v }
  | .offsets, .text v => { c with offsets := v }
  | .libart, .text v => { c with libart := v }
  | .modes, .text v => { c with modes := v }
  | .only, .text v => { c with only := v }
  | .exclude, .text v => { c with exclude := v }
  | .noReturns, .bool v => { c with noReturns := v }
  | .maxDepth, .int v => { c with maxDepth := v }
  | .grep, .text v => { c with grep := v }
  | .classRe, .text v => { c with classRe := v }
  | .methodRe, .text v => { c with methodRe := v }
  | .fromText, .text v => { c with fromText := v }
  | .tid, .int v => { c with tid := v }
  | .verbose, .bool v => { c with verbose := v }
  | .count, .bool v => { c with count := v }
  | .jsonOut, .bool v => { c with jsonOut := v }
  | .noColor, .bool v => { c with noColor := v }
  | .stack, .bool v => { c with stack := v }
  | _, _ => c

theorem value_put_self (c : Options) {k : OptionField} {v : OptionValue} (h : v.kind = k.kind) :
    (c.put k v).value k = v := by
  cases k <;> cases v <;> first | rfl | cases h

theorem value_put_ne (c : Options) {j k : OptionField} (v : OptionValue) (h : j ≠ k) :
    (c.put k v).value j = c.value j := by
  cases k <;> cases v <;> first
    | rfl
    | cases j <;> first | rfl | exact absurd rfl h

theorem kind_value (c : Options) (k : OptionField) : (c.value k).kind = k.kind := by
  cases k <;> rfl

theorem eq_of_value {c d : Options} (h : ∀ k, c.value k = d.value k) : c = d := by
  cases c
  cases d
  rw [Options.mk.injEq]
  refine ⟨?_, ?_, ?_, ?_, ?_, ?_, ?_, ?_, ?_, ?_, ?_, ?_, ?_, ?_, ?_, ?_, ?_, ?_, ?_, ?_⟩
  · exact OptionValue.int.inj (h .pid)
  · exact OptionValue.text.inj (h .name)
  · exact OptionValue.int.inj (h .runSec)
  · exact OptionValue.text.inj (h .offsets)
  · exact OptionValue.text.inj (h .libart)
  · exact OptionValue.text.inj (h .modes)
  · exact OptionValue.text.inj (h .only)
  · exact OptionValue.text.inj (h .exclude)
  · exact OptionValue.bool.inj (h .noReturns)
  · exact OptionValue.int.inj (h .maxDepth)
  · exact OptionValue.text.inj (h .grep)
  · exact OptionValue.text.inj (h .classRe)
  · exact OptionValue.text.inj (h .methodRe)
  · exact OptionValue.text.inj (h .fromText)
  · exact OptionValue.int.inj (h .tid)
  · exact OptionValue.bool.inj (h .verbose)
  · exact OptionValue.bool.inj (h .count)
  · exact OptionValue.bool.inj (h .jsonOut)
  · exact OptionValue.bool.inj (h .noColor)
  · exact OptionValue.bool.inj (h .stack)

end Options

def libartDefault : Bytes := str "/apex/com.android.art/lib64/libart.so"

/-- What the declarations of the flags leave in the configuration. -/
def Options.default : Options where
  pid := 0
  name := []
  runSec := 0
  offsets := str "auto"
  libart := libartDefault
  modes := str "all"
  only := []
  exclude := []
  noReturns := false
  maxDepth := 0
  grep := []
  classRe := []
  methodRe := []
  fromText := []
  tid := 0
  verbose := false
  count := false
  jsonOut := false
  noColor := false
  stack := false

/-! ### The flags -/

/-- `Set` of an integer, a string or a boolean flag, as far as the text. -/
def OptionKind.read : OptionKind → Bytes → Option OptionValue
  | int, s => (GoNumber.parseInt s 0).map (fun i => .int (Int64.ofInt i))
  | text, s => some (.text s)
  | bool, s => (parseBool s).map .bool

/-- `fs.IntVar(&c.<field>, name, …)` and its like. -/
structure OptionFlag where
  field : OptionField
  name : Bytes
  deriving DecidableEq

def OptionFlag.set (o : OptionFlag) (text : Bytes) (c : Options) : Option Options :=
  (o.field.kind.read text).map (c.put o.field)

def OptionFlag.flag (o : OptionFlag) : Flag Options where
  name := o.name
  isBool := o.field.kind = .bool
  set := o.set

def optionFlags : List OptionFlag :=
  [⟨.pid, str "p"⟩, ⟨.pid, str "pid"⟩, ⟨.name, str "n"⟩, ⟨.name, str "name"⟩,
    ⟨.runSec, str "run"⟩, ⟨.offsets, str "offsets"⟩, ⟨.libart, str "libart"⟩,
    ⟨.modes, str "m"⟩, ⟨.modes, str "mode"⟩, ⟨.only, str "only"⟩, ⟨.exclude, str "exclude"⟩,
    ⟨.noReturns, str "no-returns"⟩, ⟨.maxDepth, str "max-depth"⟩, ⟨.grep, str "g"⟩,
    ⟨.grep, str "grep"⟩, ⟨.classRe, str "class"⟩, ⟨.methodRe, str "method"⟩,
    ⟨.fromText, str "from"⟩, ⟨.tid, str "tid"⟩, ⟨.verbose, str "v"⟩, ⟨.verbose, str "verbose"⟩,
    ⟨.count, str "count"⟩, ⟨.jsonOut, str "json"⟩, ⟨.noColor, str "no-color"⟩,
    ⟨.stack, str "S"⟩, ⟨.stack, str "stack"⟩]

def parseFlags (args : List Bytes) : Except FlagError Options :=
  (parse (optionFlags.map OptionFlag.flag) args Options.default).map Prod.fst

/-! ### What the session is set up with -/

def Options.config (c : Options) : Config where
  noReturns := c.noReturns
  maxDepth := c.maxDepth
  tid := c.tid
  verbose := c.verbose
  count := c.count
  jsonOut := c.jsonOut
  stack := c.stack

def Options.filterOptions (c : Options) : FilterOptions where
  modes := c.modes
  only := c.only
  exclude := c.exclude
  grep := c.grep
  classRe := c.classRe
  methodRe := c.methodRe
  fromText := c.fromText

/-! ### Flags that are written out -/

/-- A flag of the program with a value, and how they are written. -/
structure OptionSetting where
  option : OptionFlag
  value : Bytes
  twoDashes : Bool
  spelling : Spelling

namespace OptionSetting

def setting (x : OptionSetting) : Setting Options :=
  ⟨x.option.flag, x.value, x.twoDashes, x.spelling⟩

def words (x : OptionSetting) : List Bytes := x.setting.words

def read (x : OptionSetting) : Option OptionValue := x.option.field.kind.read x.value

/-- A value that the flag takes, written as Go allows it for flags of its kind. -/
structure Written (x : OptionSetting) : Prop where
  declared : x.option ∈ optionFlags
  separate : x.spelling = .separate → x.option.field.kind ≠ .bool
  bare : x.spelling = .bare → x.option.field.kind = .bool ∧ x.value = str "true"
  read : x.read.isSome = true

theorem kind_of_read {kind : OptionKind} {text : Bytes} {v : OptionValue}
    (h : kind.read text = some v) : v.kind = kind := by
  cases kind with
  | int =>
      obtain ⟨i, -, rfl⟩ := Option.map_eq_some_iff.mp h
      rfl
  | text =>
      obtain rfl := Option.some.inj h
      rfl
  | bool =>
      obtain ⟨b, -, rfl⟩ := Option.map_eq_some_iff.mp h
      rfl

theorem names_proper : ∀ o ∈ optionFlags,
    o.name ≠ [] ∧ o.name.head? ≠ some 45 ∧ 61 ∉ o.name := by
  decide

theorem names_nodup : ((optionFlags.map OptionFlag.flag).map Flag.name).Nodup := by
  decide

theorem Written.legal {x : OptionSetting} (h : x.Written) :
    x.setting.Legal (optionFlags.map OptionFlag.flag) where
  declared := find_of_nodup names_nodup (List.mem_map_of_mem h.declared)
  named := names_proper x.option h.declared
  separate hs := by simpa [setting, OptionFlag.flag] using h.separate hs
  bare hb := by simpa [setting, OptionFlag.flag] using h.bare hb

/-- What the settings leave in each field: the value of the last one for it. -/
def lastValue (c : Options) (xs : List OptionSetting) (k : OptionField) : Option OptionValue :=
  match (xs.filter (fun x => x.option.field = k)).getLast? with
  | some x => x.read
  | none => some (c.value k)

theorem apply_settings {xs : List OptionSetting} (hwritten : ∀ x ∈ xs, x.Written) (c : Options) :
    ∃ d, (xs.map setting).foldlM (fun c x => x.apply c) c = some d ∧
      ∀ k, lastValue c xs k = some (d.value k) := by
  induction xs using List.reverseRecOn with
  | nil => exact ⟨c, rfl, fun k => rfl⟩
  | append_singleton xs x ih =>
      obtain ⟨d, hfold, hlast⟩ := ih (fun y hy => hwritten y (List.mem_append_left _ hy))
      have hx := hwritten x (List.mem_append_right _ List.mem_cons_self)
      obtain ⟨v, hv⟩ := Option.isSome_iff_exists.mp hx.read
      refine ⟨d.put x.option.field v, ?_, ?_⟩
      · have happly : x.setting.apply d = some (d.put x.option.field v) := by
          have hread : x.option.field.kind.read x.value = some v := hv
          simp only [Setting.apply, setting, OptionFlag.flag, OptionFlag.set, hread,
            Option.map_some]
        rw [List.map_append, List.foldlM_append, hfold]
        simp [happly]
      · intro k
        unfold lastValue
        rw [List.filter_append]
        by_cases hk : x.option.field = k
        · subst hk
          rw [List.filter_cons_of_pos (by simp), List.filter_nil, List.getLast?_concat,
            Options.value_put_self d (kind_of_read hv)]
          exact hv
        · rw [List.filter_cons_of_neg (by simpa using hk), List.filter_nil, List.append_nil,
            Options.value_put_ne d v (Ne.symm hk)]
          exact hlast k

/-- Settings in any form, in front of the operands, are applied one after the other. -/
theorem parseFlags_words {xs : List OptionSetting} (hwritten : ∀ x ∈ xs, x.Written) {c : Options}
    (hfold : (xs.map setting).foldlM (fun c x => x.apply c) Options.default = some c)
    {operands : List Bytes} (hoperands : ∀ arg ∈ operands.head?, endsFlags arg = true) :
    parseFlags (xs.flatMap words ++ operands) = .ok c := by
  have hlegal : ∀ y ∈ xs.map setting, y.Legal (optionFlags.map OptionFlag.flag) := by
    intro y hy
    obtain ⟨x, hx, rfl⟩ := List.mem_map.mp hy
    exact (hwritten x hx).legal
  have hwords : xs.flatMap words = (xs.map setting).flatMap Setting.words := by
    rw [List.flatMap_map]
    rfl
  have hrest : parse (optionFlags.map OptionFlag.flag) operands c = .ok (c, operands) := by
    cases operands with
    | nil => rfl
    | cons arg rest => exact parse_operand _ (hoperands arg rfl) rest c
  rw [parseFlags, hwords, parse_settings hlegal hfold, hrest]
  rfl

end OptionSetting

end JniProbe
