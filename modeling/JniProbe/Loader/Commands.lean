import JniProbe.Lib.GoSplit
import JniProbe.Loader.Filters

/-!
Where filters come from: the options of the command line, and the lines typed
while the tracer runs. `none` stands for the end of the process, when a regular
expression does not compile or a line asks to quit.
-/

namespace JniProbe

open GoText

/-- The filter options as they are given. -/
structure FilterOptions where
  modes : Bytes
  only : Bytes
  exclude : Bytes
  grep : Bytes
  classRe : Bytes
  methodRe : Bytes
  fromText : Bytes

def splitList (s : Bytes) : List Bytes := ((split 44 s).map trimSpace).filter (· ≠ [])

/-- An option that is not given restricts nothing. -/
def regexOption (compile : Bytes → Option (Bytes → Bool)) (s : Bytes) :
    Option (Option (Bytes → Bool)) :=
  if s = [] then some none else (compile s).map some

/-- The modes are split as the lists are; `compile` is what `regexp.MustCompile`
makes of a text. -/
def newFilters (compile : Bytes → Option (Bytes → Bool)) (c : FilterOptions) : Option Filters := do
  let classRe ← regexOption compile c.classRe
  let methodRe ← regexOption compile c.methodRe
  return {
    modes := splitList c.modes
    only := splitList c.only
    exclude := splitList c.exclude
    grep := c.grep
    classRe := classRe
    methodRe := methodRe
    fromList := if c.fromText = [] then [] else splitList c.fromText }

/-- The filters after `clear`. -/
def Filters.cleared : Filters where
  modes := [str "all"]
  only := []
  exclude := []
  grep := []
  classRe := none
  methodRe := none
  fromList := []

def applyCommand (f : Filters) (line : Bytes) : Option Filters :=
  match fields line with
  | [] => some f
  | cmd :: _ =>
    let arg := trimSpace (trimPrefix line cmd)
    if cmd = str "only" then some { f with only := splitList arg }
    else if cmd = str "exclude" then some { f with exclude := splitList arg }
    else if cmd = str "from" then some { f with fromList := splitList arg }
    else if cmd = str "grep" then some { f with grep := arg }
    else if cmd = str "mode" then some { f with modes := splitList arg }
    else if cmd = str "clear" then some Filters.cleared
    else if cmd = str "quit" ∨ cmd = str "exit" then none
    else some f -- `stats`, or unknown

/-- One line of the terminal. -/
def readCommand (f : Filters) (text : Bytes) : Option Filters :=
  let line := trimSpace text
  if line = [] then some f else applyCommand f line

def readCommands (f : Filters) (texts : List Bytes) : Option Filters := texts.foldlM readCommand f

theorem readCommands_cons (f : Filters) (text : Bytes) (texts : List Bytes) :
    readCommands f (text :: texts) = (readCommand f text).bind (fun g => readCommands g texts) :=
  List.foldlM_cons

/-! ### What the filters show of themselves -/

/-- The same filters, with the modes as a set. -/
structure Filters.Same (f g : Filters) : Prop where
  modes : ∀ m, m ∈ f.modes ↔ m ∈ g.modes
  only : f.only = g.only
  exclude : f.exclude = g.exclude
  grep : f.grep = g.grep
  classRe : f.classRe = g.classRe
  methodRe : f.methodRe = g.methodRe
  fromList : f.fromList = g.fromList

theorem Filters.Same.refl (f : Filters) : f.Same f :=
  ⟨fun _ => Iff.rfl, rfl, rfl, rfl, rfl, rfl, rfl⟩

theorem Filters.Same.matchSlot {f g : Filters} (h : f.Same g) (slot : Nat) :
    f.matchSlot slot = g.matchSlot slot := by
  have hmodes (m : Bytes) : f.modes.contains m = g.modes.contains m := by
    rw [Bool.eq_iff_iff, List.contains_iff_mem, List.contains_iff_mem]
    exact h.modes m
  simp only [Filters.matchSlot, hmodes, h.only, h.exclude]

theorem Filters.Same.matchLine {f g : Filters} (h : f.Same g) (cls method line callerMod : Bytes) :
    f.matchLine cls method line callerMod = g.matchLine cls method line callerMod := by
  simp only [Filters.matchLine, h.grep, h.classRe, h.methodRe, h.fromList]

/-! ### Every filter state is that of some options -/

section Options

variable {compile : Bytes → Option (Bytes → Bool)}

theorem newFilters_eq_some {c : FilterOptions} {f : Filters} :
    newFilters compile c = some f ↔
      regexOption compile c.classRe = some f.classRe ∧
      regexOption compile c.methodRe = some f.methodRe ∧
      splitList c.modes = f.modes ∧ splitList c.only = f.only ∧
      splitList c.exclude = f.exclude ∧ c.grep = f.grep ∧
      (if c.fromText = [] then [] else splitList c.fromText) = f.fromList := by
  obtain ⟨modes, only, exclude, grep, classRe, methodRe, fromList⟩ := f
  unfold newFilters
  cases regexOption compile c.classRe with
  | none => simp
  | some cls =>
      cases regexOption compile c.methodRe with
      | none => simp
      | some meth =>
          simp only [Option.bind_eq_bind, Option.bind_some, Option.pure_def, Option.some.injEq,
            Filters.mk.injEq]
          tauto

theorem splitList_nil : splitList [] = [] := by decide

/-- A command leaves the filters of some options behind. -/
theorem applyCommand_options {c : FilterOptions} {f g : Filters} {line : Bytes}
    (hf : newFilters compile c = some f) (hg : applyCommand f line = some g) :
    ∃ c', newFilters compile c' = some g := by
  rw [newFilters_eq_some] at hf
  obtain ⟨hcls, hmeth, hmodes, honly, hexclude, hgrep, hfrom⟩ := hf
  have hkeep : newFilters compile c = some f :=
    newFilters_eq_some.mpr ⟨hcls, hmeth, hmodes, honly, hexclude, hgrep, hfrom⟩
  unfold applyCommand at hg
  split at hg
  · obtain rfl := Option.some.inj hg
    exact ⟨c, hkeep⟩
  · rename_i cmd rest hfields
    generalize trimSpace (trimPrefix line cmd) = arg at hg
    dsimp only at hg
    split at hg
    · obtain rfl := Option.some.inj hg
      refine ⟨{ c with only := arg }, newFilters_eq_some.mpr ?_⟩
      exact ⟨hcls, hmeth, hmodes, rfl, hexclude, hgrep, hfrom⟩
    split at hg
    · obtain rfl := Option.some.inj hg
      refine ⟨{ c with exclude := arg }, newFilters_eq_some.mpr ?_⟩
      exact ⟨hcls, hmeth, hmodes, honly, rfl, hgrep, hfrom⟩
    split at hg
    · obtain rfl := Option.some.inj hg
      refine ⟨{ c with fromText := arg }, newFilters_eq_some.mpr ?_⟩
      refine ⟨hcls, hmeth, hmodes, honly, hexclude, hgrep, ?_⟩
      dsimp only
      split
      · rename_i hnil
        rw [hnil, splitList_nil]
      · rfl
    split at hg
    · obtain rfl := Option.some.inj hg
      refine ⟨{ c with grep := arg }, newFilters_eq_some.mpr ?_⟩
      exact ⟨hcls, hmeth, hmodes, honly, hexclude, rfl, hfrom⟩
    split at hg
    · obtain rfl := Option.some.inj hg
      refine ⟨{ c with modes := arg }, newFilters_eq_some.mpr ?_⟩
      exact ⟨hcls, hmeth, rfl, honly, hexclude, hgrep, hfrom⟩
    split at hg
    · obtain rfl := Option.some.inj hg
      refine ⟨⟨str "all", [], [], [], [], [], []⟩, newFilters_eq_some.mpr ?_⟩
      exact ⟨rfl, rfl, by decide, splitList_nil, splitList_nil, rfl, rfl⟩
    split at hg
    · cases hg
    · obtain rfl := Option.some.inj hg
      exact ⟨c, hkeep⟩

/-- Whatever is typed, some options start a session in the state reached. -/
theorem readCommands_options {c : FilterOptions} {f g : Filters} {texts : List Bytes}
    (hf : newFilters compile c = some f) (hg : readCommands f texts = some g) :
    ∃ c', newFilters compile c' = some g := by
  induction texts generalizing c f with
  | nil =>
      obtain rfl : f = g := Option.some.inj hg
      exact ⟨c, hf⟩
  | cons text texts ih =>
      rw [readCommands_cons, Option.bind_eq_some_iff] at hg
      obtain ⟨f', hstep, hrest⟩ := hg
      unfold readCommand at hstep
      dsimp only at hstep
      split at hstep
      · obtain rfl := Option.some.inj hstep
        exact ih hf hrest
      · obtain ⟨c', hc'⟩ := applyCommand_options hf hstep
        exact ih hc' hrest

end Options

end JniProbe
