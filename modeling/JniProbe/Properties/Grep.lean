import JniProbe.Properties.Lines

/-!
What `--grep` looks at. The line of an entry is tested by the text it shows; the
line of a return shows `call = ret` and is tested by the two texts put together,
which differ in what is found where they meet.
-/

namespace JniProbe

open GoText GoFormat

/-! ### Occurrences in two texts put together -/

/-- The text begins in the first of two texts and ends in the second. -/
def Straddles (g left right : Bytes) : Prop :=
  ∃ x y, x ≠ [] ∧ y ≠ [] ∧ g = x ++ y ∧ x <:+ left ∧ y <+: right

theorem contains_append (g left right : Bytes) :
    contains (left ++ right) g = true ↔
      contains left g = true ∨ contains right g = true ∨ Straddles g left right := by
  rw [contains_iff, contains_iff, contains_iff]
  exact List.infix_append_iff_ne_nil

/-- The text takes in something of what stands between two texts. -/
def Bridges (g left sep right : Bytes) : Prop :=
  contains sep g = true ∨ Straddles g sep right ∨ Straddles g left (sep ++ right)

theorem contains_separated (g left sep right : Bytes) :
    contains (left ++ sep ++ right) g = true ↔
      contains left g = true ∨ contains right g = true ∨ Bridges g left sep right := by
  rw [List.append_assoc, contains_append, contains_append, Bridges]
  constructor
  · rintro (h | (h | h | h) | h)
    · exact Or.inl h
    · exact Or.inr (Or.inr (Or.inl h))
    · exact Or.inr (Or.inl h)
    · exact Or.inr (Or.inr (Or.inr (Or.inl h)))
    · exact Or.inr (Or.inr (Or.inr (Or.inr h)))
  · rintro (h | h | h | h | h)
    · exact Or.inl h
    · exact Or.inr (Or.inl (Or.inr (Or.inl h)))
    · exact Or.inr (Or.inl (Or.inl h))
    · exact Or.inr (Or.inl (Or.inr (Or.inr h)))
    · exact Or.inr (Or.inr h)

theorem contains_mono {s t g : Bytes} (hst : s <:+: t) (h : contains s g = true) :
    contains t g = true := by
  rw [contains_iff] at h ⊢
  exact h.trans hst

/-! ### The decisions -/

/-- A filter state that looks at lines with `--grep` alone. -/
structure GrepOnly (f : Filters) : Prop where
  classRe : f.classRe = none
  methodRe : f.methodRe = none
  fromList : f.fromList = []

theorem GrepOnly.matchLine {f : Filters} (h : GrepOnly f) (cls meth line caller : Bytes) :
    f.matchLine cls meth line caller = contains line f.grep := by
  cases hgrep : f.grep with
  | nil =>
      have hall : contains line [] = true := by
        rw [contains_iff]
        exact List.nil_infix
      simp [Filters.matchLine, Filters.regexMatches, hgrep, h.classRe, h.methodRe, h.fromList, hall]
  | cons b rest =>
      simp [Filters.matchLine, Filters.regexMatches, hgrep, h.classRe, h.methodRe, h.fromList]

/-- A line is printed only if it and the text that it shows contain the text that
is searched for, and it is printed if the call is asked for and they do. -/
structure GrepExact (g : Bytes) (line : Option Bytes) (shown : Bytes) (asked : Bool) : Prop where
  sound : ∀ l, line = some l → contains shown g = true ∧ contains l g = true
  complete : asked = true → contains shown g = true → line.isSome = true

section Lines

variable (S : Session) (env : Env) (t : Tracker) (e : Evt)

/-- The call is known, and the mode, only, exclude and depth settings want it. -/
def entryAsked (slot : Nat) : Bool :=
  selected S env.filters slot e.depth &&
    (!Session.callSet slot || (describeCall e (slotName slot) t.caches env.mr).2)

/-- For the line of an entry `--grep` is exact. -/
theorem entry_grepExact (hgrep : GrepOnly env.filters) {slot : Nat}
    (hslot : S.slotAt (e.ip - S.base) = some slot) :
    GrepExact env.filters.grep (handleEntry S env t e).2 (entryText env t e slot)
      (entryAsked S env t e slot) := by
  have hemits : (handleEntry S env t e).2.isSome = (selected S env.filters slot e.depth &&
      (!Session.callSet slot || (describeCall e (slotName slot) t.caches env.mr).2 ||
        S.cfg.verbose) && contains (entryText env t e slot) env.filters.grep) := by
    unfold entryText
    cases hset : Session.callSet slot with
    | true =>
        rw [entry_emits_call S env t e hslot hset, acceptsText, hgrep.matchLine]
        simp
    | false =>
        rw [entry_emits_generic S env t e hslot hset, hgrep.matchLine]
        simp
  constructor
  · intro l hl
    have hcontains : contains (entryText env t e slot) env.filters.grep = true := by
      rw [hl, Option.isSome_some] at hemits
      exact ((Bool.and_eq_true _ _).mp hemits.symm).2
    rw [entry_line S env t e hslot hl]
    exact ⟨hcontains, contains_mono (List.infix_append _ _ _) hcontains⟩
  · intro hasked hcontains
    unfold entryAsked at hasked
    rw [Bool.and_eq_true] at hasked
    rw [hemits, hasked.1, hasked.2, hcontains]
    rfl

/-- The text that the line of a return shows. -/
def returnText (fr : Frame) : Bytes :=
  fr.call ++ str " = " ++ fmtRet (learn env.mr fr e.rc t.caches) env.mr (slotRet fr.slot) e.rc

/-- A text is stored for the call, and the settings want it. -/
def returnAsked (fr : Frame) : Bool := selected S env.filters fr.slot e.depth && fr.call ≠ []

theorem return_line_shows {fr : Frame} (hdepth : 0 ≤ e.depth) (hfr : t.frames e.key = some fr)
    {l : Bytes} (hl : (handleReturn S env t e).2 = some l) : returnText env t e fr <:+: l := by
  rw [handleReturn_found S env t e hdepth hfr] at hl
  rw [returnLine_eq S env e hl]
  exact ⟨indentStr e.depth ++ str "<- ", str "  (" ++ millis (e.ts - fr.ts) ++ str " ms)",
    by simp [returnText]⟩

theorem return_emits_grep (hgrep : GrepOnly env.filters) {fr : Frame} (hdepth : 0 ≤ e.depth)
    (hfr : t.frames e.key = some fr) :
    (handleReturn S env t e).2.isSome = (returnAsked S env e fr &&
      contains (fr.call ++
        fmtRet (learn env.mr fr e.rc t.caches) env.mr (slotRet fr.slot) e.rc)
        env.filters.grep) := by
  rw [handleReturn_found S env t e hdepth hfr, returnLine_emits, hgrep.matchLine]
  rfl

/-- The text that is searched for lies in the call or in its result, or it is
found where the two meet exactly if it is found around what stands between. -/
def MeetsAlike (g call ret : Bytes) : Prop :=
  contains call g = true ∨ contains ret g = true ∨
    (Straddles g call ret ↔ Bridges g call (str " = ") ret)

theorem meetsAlike_iff (g call ret : Bytes) :
    MeetsAlike g call ret ↔
      (contains (call ++ ret) g = true ↔ contains (call ++ str " = " ++ ret) g = true) := by
  rw [contains_append, contains_separated, MeetsAlike]
  by_cases hcall : contains call g = true
  · simp [hcall]
  · by_cases hret : contains ret g = true
    · simp [hret]
    · simp [hcall, hret]

/-- For the line of a return `--grep` is exact if and only if the call is not
asked for, or the text does not tell the call and its result put together from
the two with ` = ` between them. -/
theorem return_grepExact_iff (hgrep : GrepOnly env.filters) {fr : Frame} (hdepth : 0 ≤ e.depth)
    (hfr : t.frames e.key = some fr) :
    GrepExact env.filters.grep (handleReturn S env t e).2 (returnText env t e fr)
        (returnAsked S env e fr) ↔
      (returnAsked S env e fr = true → MeetsAlike env.filters.grep fr.call
        (fmtRet (learn env.mr fr e.rc t.caches) env.mr (slotRet fr.slot) e.rc)) := by
  have hemits := return_emits_grep S env t e hgrep hdepth hfr
  rw [meetsAlike_iff]
  constructor
  · intro h hasked
    rw [hasked, Bool.true_and] at hemits
    constructor
    · intro htested
      rw [htested] at hemits
      obtain ⟨l, hl⟩ := Option.isSome_iff_exists.mp hemits
      exact (h.sound l hl).1
    · intro hshown
      rw [← hemits]
      exact h.complete hasked hshown
  · intro h
    constructor
    · intro l hl
      rw [hl, Option.isSome_some] at hemits
      obtain ⟨hasked, htested⟩ := (Bool.and_eq_true _ _).mp hemits.symm
      have hshown : contains (returnText env t e fr) env.filters.grep = true :=
        (h hasked).mp htested
      exact ⟨hshown, contains_mono (return_line_shows S env t e hdepth hfr hl) hshown⟩
    · intro hasked hshown
      rw [hemits, hasked, (h hasked).mpr hshown]
      rfl

/-- `--grep` is exact for the line of every entry, and for the line of a return
under the condition of `return_grepExact_iff`. -/
theorem grep_exact_iff (hgrep : GrepOnly env.filters) :
    (∀ slot, S.slotAt (e.ip - S.base) = some slot →
      GrepExact env.filters.grep (handleEntry S env t e).2 (entryText env t e slot)
        (entryAsked S env t e slot)) ∧
    ∀ fr, 0 ≤ e.depth → t.frames e.key = some fr →
      (GrepExact env.filters.grep (handleReturn S env t e).2 (returnText env t e fr)
          (returnAsked S env e fr) ↔
        (returnAsked S env e fr = true → MeetsAlike env.filters.grep fr.call
          (fmtRet (learn env.mr fr e.rc t.caches) env.mr (slotRet fr.slot) e.rc))) := by
  constructor
  · intro slot hslot
    exact entry_grepExact S env t e hgrep hslot
  · intro fr hdepth hfr
    exact return_grepExact_iff S env t e hgrep hdepth hfr

end Lines

namespace Scenario

/-- `GetVersion`, entered and about to return 1. -/
def versionFrame : Frame := ⟨4, 0, str "GetVersion()", [], 0, 0, 0⟩

def versionTracker : Tracker := ⟨fun _ => some versionFrame, newCaches⟩

def versionReturn : Evt := { blank with kind := 1, rc := 1 }

def grepEnv (g : Bytes) : Env := ⟨none, fun _ => [], { filters with grep := g }⟩

theorem grepOnly_env (g : Bytes) : GrepOnly (grepEnv g).filters := ⟨rfl, rfl, rfl⟩

/-- What `handleReturn` prints of that return with `--grep g`. -/
def versionLine (g : Bytes) : Option Bytes :=
  (handleReturn (session (table [4])) (grepEnv g) versionTracker versionReturn).2

def versionText (g : Bytes) : Bytes :=
  returnText (grepEnv g) versionTracker versionReturn versionFrame

def versionAsked (g : Bytes) : Bool :=
  returnAsked (session (table [4])) (grepEnv g) versionReturn versionFrame

end Scenario

open Scenario in
/-- With `--grep ")1"` the line `<- GetVersion() = 1` is printed, which does not
contain the text; with `--grep "= 1"`, which it does contain, it is not. -/
theorem grep_across_result :
    versionLine (str ")1") = some (str "<- GetVersion() = 1  (0.000 ms)") ∧
      versionLine (str "= 1") = none ∧
      ¬ GrepExact (str ")1") (versionLine (str ")1")) (versionText (str ")1"))
        (versionAsked (str ")1")) ∧
      ¬ GrepExact (str "= 1") (versionLine (str "= 1")) (versionText (str "= 1"))
        (versionAsked (str "= 1")) := by
  have hprinted : versionLine (str ")1") = some (str "<- GetVersion() = 1  (0.000 ms)") := by
    decide +kernel
  have hmissing : versionLine (str "= 1") = none := by decide +kernel
  refine ⟨hprinted, hmissing, ?_, ?_⟩
  · intro h
    have hcontains := (h.sound _ hprinted).2
    exact absurd hcontains (by decide +kernel)
  · intro h
    have hline := h.complete (by decide +kernel) (by decide +kernel)
    rw [hmissing] at hline
    cases hline

open Scenario in
/-- With `--grep GetVersion` the decision is exact. -/
theorem grep_exact_name :
    GrepExact (str "GetVersion") (versionLine (str "GetVersion")) (versionText (str "GetVersion"))
      (versionAsked (str "GetVersion")) := by
  apply ((grep_exact_iff (session (table [4])) _ versionTracker versionReturn
    (grepOnly_env (str "GetVersion"))).2 versionFrame (by decide) rfl).mpr
  intro _
  exact Or.inl (by decide +kernel)

end JniProbe
