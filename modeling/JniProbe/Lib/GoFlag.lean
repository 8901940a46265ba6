import JniProbe.Lib.GoNumber
import JniProbe.Lib.GoSplit

/-!
Command lines as Go's `flag` package reads them: one or two dashes, a value
behind an equals sign or in the next argument, boolean flags that need none. The
first argument that is no flag ends the flags.
-/

namespace GoFlag

open GoText

/-- A declared flag. `set` is the `Set` of its value; it fails on a text that is
no such value. -/
structure Flag (σ : Type*) where
  name : Bytes
  isBool : Bool
  set : Bytes → σ → Option σ

inductive FlagError where
  | help
  | badSyntax (arg : Bytes)
  | notDefined (name : Bytes)
  | invalidValue (value name : Bytes)
  | needsArgument (name : Bytes)
  deriving DecidableEq

/-- The status with which `flag.ExitOnError` ends the process. -/
def FlagError.status : FlagError → Nat
  | help => 0
  | _ => 2

/-- `strconv.ParseBool`. -/
def parseBool (s : Bytes) : Option Bool :=
  if [str "1", str "t", str "T", str "true", str "TRUE", str "True"].contains s then some true
  else if [str "0", str "f", str "F", str "false", str "FALSE", str "False"].contains s then
    some false
  else none

section Flags

variable {σ : Type*}

/-- What stands before the first equals sign, and behind it if there is one. -/
def nameAndValue (s : Bytes) : Bytes × Option Bytes :=
  match splitTwo 61 s with
  | some (name, value) => (name, some value)
  | none => (s, none)

def setFlag (f : Flag σ) (value : Bytes) (s : σ) : Except FlagError σ :=
  match f.set value s with
  | some s' => .ok s'
  | none => .error (.invalidValue value f.name)

/-- An argument that ends the flags: too short, or without a dash. -/
def endsFlags (arg : Bytes) : Bool := arg.length < 2 || arg.head? ≠ some 45

/-- What an argument is found to be. -/
inductive Token (σ : Type*) where
  | operand
  | terminator
  | failure (e : FlagError)
  | flag (f : Flag σ) (value : Option Bytes)

def readToken (flags : List (Flag σ)) (arg : Bytes) : Token σ :=
  if endsFlags arg then .operand
  else if arg = str "--" then .terminator
  else
    let text := if arg.tail.head? = some 45 then arg.tail.tail else arg.tail
    if text = [] ∨ text.head? = some 45 ∨ text.head? = some 61 then .failure (.badSyntax arg)
    else
      let (name, value) := nameAndValue text
      match flags.find? (fun f => f.name == name) with
      | some f => .flag f value
      | none =>
        if name = str "help" ∨ name = str "h" then .failure .help
        else .failure (.notDefined name)

/-- `Parse`: the values set, and the arguments that are left. -/
def parse (flags : List (Flag σ)) : List Bytes → σ → Except FlagError (σ × List Bytes)
  | [], s => .ok (s, [])
  | arg :: rest, s =>
    match readToken flags arg with
    | .operand => .ok (s, arg :: rest)
    | .terminator => .ok (s, rest)
    | .failure e => .error e
    | .flag f value =>
      if f.isBool then (setFlag f (value.getD (str "true")) s).bind (parse flags rest)
      else
        match value with
        | some value => (setFlag f value s).bind (parse flags rest)
        | none =>
          match rest with
          | [] => .error (.needsArgument f.name)
          | value :: rest => (setFlag f value s).bind (parse flags rest)

/-! ### Flags that are written are read -/

inductive Spelling where
  | attached
  | separate
  | bare
  deriving DecidableEq

/-- A flag with a value, and how they are written. -/
structure Setting (σ : Type*) where
  flag : Flag σ
  value : Bytes
  twoDashes : Bool
  spelling : Spelling

namespace Setting

def dashed (x : Setting σ) : Bytes :=
  if x.twoDashes then 45 :: 45 :: x.flag.name else 45 :: x.flag.name

def words (x : Setting σ) : List Bytes :=
  match x.spelling with
  | .attached => [x.dashed ++ 61 :: x.value]
  | .separate => [x.dashed, x.value]
  | .bare => [x.dashed]

def apply (x : Setting σ) (s : σ) : Option σ := x.flag.set x.value s

/-- One of the flags, written in a way that its kind allows. -/
structure Legal (flags : List (Flag σ)) (x : Setting σ) : Prop where
  declared : flags.find? (fun f => f.name == x.flag.name) = some x.flag
  named : x.flag.name ≠ [] ∧ x.flag.name.head? ≠ some 45 ∧ 61 ∉ x.flag.name
  separate : x.spelling = .separate → x.flag.isBool = false
  bare : x.spelling = .bare → x.flag.isBool = true ∧ x.value = str "true"

end Setting

/-- The flags have different names, so each is found under its own. -/
theorem find_of_nodup {flags : List (Flag σ)} (hnodup : (flags.map Flag.name).Nodup) {f : Flag σ}
    (hf : f ∈ flags) : flags.find? (fun g => g.name == f.name) = some f := by
  induction flags with
  | nil => cases hf
  | cons g rest ih =>
      rw [List.map_cons, List.nodup_cons] at hnodup
      rcases List.mem_cons.mp hf with rfl | hf
      · rw [List.find?_cons, beq_self_eq_true]
      · have hne : (g.name == f.name) = false := by
          rw [beq_eq_false_iff_ne]
          intro heq
          exact hnodup.1 (heq ▸ List.mem_map_of_mem hf)
        rw [List.find?_cons, hne]
        exact ih hnodup.2 hf

theorem nameAndValue_bare {name : Bytes} (h : 61 ∉ name) : nameAndValue name = (name, none) := by
  rw [nameAndValue, splitTwo, indexByte_eq_none name 61 h]
  rfl

theorem nameAndValue_attached {name : Bytes} (h : 61 ∉ name) (value : Bytes) :
    nameAndValue (name ++ 61 :: value) = (name, some value) := by
  rw [nameAndValue, splitTwo_append name value h]

variable {flags : List (Flag σ)} {x : Setting σ} {rest : List Bytes} {s s' : σ}

/-- Behind the dashes of a flag that has been declared, its name and its value are read. -/
theorem readToken_dashed (h : x.Legal flags) {tail : Bytes} {value : Option Bytes}
    (hread : nameAndValue (x.flag.name ++ tail) = (x.flag.name, value)) :
    readToken flags (x.dashed ++ tail) = .flag x.flag value := by
  obtain ⟨c, cs, hname⟩ := List.exists_cons_of_ne_nil h.named.1
  have hdash : c ≠ 45 := by simpa [hname] using h.named.2.1
  have hequals : c ≠ 61 := fun heq => h.named.2.2 (by rw [hname, heq]; exact List.mem_cons_self)
  have hends (more : Bytes) : endsFlags (45 :: c :: more) = false ∧
      endsFlags (45 :: 45 :: more) = false := by simp [endsFlags]
  have hread' : nameAndValue (c :: (cs ++ tail)) = (x.flag.name, value) := by
    rw [← hread, hname, List.cons_append]
  have hlong : 45 :: c :: (cs ++ tail) ≠ str "--" := by
    intro heq
    exact hdash (List.cons.inj (List.cons.inj heq).2).1
  have hlonger : 45 :: 45 :: c :: (cs ++ tail) ≠ str "--" := by
    intro heq
    cases (List.cons.inj (List.cons.inj heq).2).2
  have hfirst : ¬ some c = some (45 : UInt8) ∧ ¬ some c = some (61 : UInt8) := by
    simp [hdash, hequals]
  have hdashed : x.dashed = if x.twoDashes then 45 :: 45 :: c :: cs else 45 :: c :: cs := by
    rw [Setting.dashed, hname]
  rw [hdashed]
  split
  · simp only [List.cons_append, readToken, (hends _).2, Bool.false_eq_true, if_false, hlonger,
      List.tail_cons, List.head?_cons, if_true, List.cons_ne_nil, hfirst.1, hfirst.2, or_self,
      hread', h.declared]
  · simp only [List.cons_append, readToken, (hends _).1, Bool.false_eq_true, if_false, hlong,
      List.tail_cons, List.head?_cons, List.cons_ne_nil, hfirst.1, hfirst.2, or_self, hread',
      h.declared]

/-- However a flag is written, its value is set and the rest is read. -/
theorem parse_setting (h : x.Legal flags) (hset : x.apply s = some s') :
    parse flags (x.words ++ rest) s = parse flags rest s' := by
  have hflag : setFlag x.flag x.value s = .ok s' := by
    rw [setFlag]
    rw [Setting.apply] at hset
    rw [hset]
  have hname := h.named.2.2
  have hbare : readToken flags x.dashed = .flag x.flag none := by
    have hread : nameAndValue (x.flag.name ++ []) = (x.flag.name, none) := by
      rw [List.append_nil]
      exact nameAndValue_bare hname
    have htoken := readToken_dashed h hread
    rwa [List.append_nil] at htoken
  unfold Setting.words
  split
  · rw [List.singleton_append, parse, readToken_dashed h (nameAndValue_attached hname x.value)]
    dsimp only
    rw [Option.getD_some, hflag, ite_self]
    rfl
  · rename_i hseparate
    have hbool : ¬ x.flag.isBool = true := by simp [h.separate hseparate]
    rw [List.cons_append, List.singleton_append, parse, hbare]
    dsimp only
    rw [if_neg hbool, hflag]
    rfl
  · rename_i hkind
    obtain ⟨hbool, hvalue⟩ := h.bare hkind
    rw [List.singleton_append, parse, hbare]
    dsimp only
    rw [if_pos hbool, Option.getD_none, ← hvalue, hflag]
    rfl

theorem parse_settings {xs : List (Setting σ)} (hlegal : ∀ x ∈ xs, x.Legal flags)
    (hset : xs.foldlM (fun s x => x.apply s) s = some s') :
    parse flags (xs.flatMap Setting.words ++ rest) s = parse flags rest s' := by
  induction xs generalizing s with
  | nil =>
      obtain rfl : s = s' := Option.some.inj hset
      rfl
  | cons x xs ih =>
      rw [List.foldlM_cons, Option.bind_eq_bind, Option.bind_eq_some_iff] at hset
      obtain ⟨u, hx, hxs⟩ := hset
      rw [List.flatMap_cons, List.append_assoc, parse_setting (hlegal x List.mem_cons_self) hx]
      exact ih (fun y hy => hlegal y (List.mem_cons_of_mem _ hy)) hxs

/-- Nothing is read behind the first argument that is no flag. -/
theorem parse_operand (flags : List (Flag σ)) {arg : Bytes} (h : endsFlags arg = true)
    (rest : List Bytes) (s : σ) : parse flags (arg :: rest) s = .ok (s, arg :: rest) := by
  rw [parse, readToken, if_pos h]

end Flags

end GoFlag
