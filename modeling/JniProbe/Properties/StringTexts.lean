import JniProbe.Properties.ClassNames

/-!
Texts of strings. `jstr` is keyed by reference values, which the target reuses,
and only string events write to it. A value that later names something else is
still shown as the old text.
-/

namespace JniProbe

open GoText GoFormat LatestWrite

def isText (l : Lesson) : Bool :=
  returnCase (slotName l.slot) = .getStringUTFChars || returnCase (slotName l.slot) = .newStringUTF

/-- The reference value that an event gives a meaning: the one it returned, or
the string whose characters it returned. -/
def subject (l : Lesson) : Option UInt64 :=
  if l.rc = 0 then none
  else
    match returnCase (slotName l.slot) with
    | .getStringUTFChars => some (l.a.get 1)
    | .newStringUTF | .newObject | .findClass | .getObjectClass => some l.rc
    | .getId | .other => none

/-- The text that a string event reads for its string. -/
def textOf (l : Lesson) : Bytes :=
  if returnCase (slotName l.slot) = .getStringUTFChars then cstr l.mr l.rc
  else cstr l.mr (l.a.get 1)

/-- A string event that reads a text for `r`. -/
def StoresText (l : Lesson) (r : UInt64) : Prop :=
  isText l = true ∧ l.mr.isSome = true ∧ subject l = some r

/-- `l` is the most recent event that gave `r` a meaning. -/
def MostRecent (ls : List Lesson) (r : UInt64) (l : Lesson) : Prop :=
  ∃ before after, ls = before ++ l :: after ∧ subject l = some r ∧
    ∀ l' ∈ after, subject l' ≠ some r

/-- Where the most recent event about a value is no string event, the value is
not shown as the text of a string it once was. -/
def NoStale (ls : List Lesson) : Prop :=
  ∀ r l, MostRecent ls r l → isText l = false → ∀ l' ∈ ls, StoresText l' r → ∀ mr typ,
    fmtArg (taught ls) mr typ r ≠ quote (textOf l') ∧
      fmtRet (taught ls) mr typ r ≠ quote (textOf l') ∧
      fmtJV typ r (taught ls) mr ≠ quote (textOf l')

theorem textWrite_eq_some {l : Lesson} {r : UInt64} {s : Bytes} :
    textWrite l.mr l.frame l.rc = some (r, s) ↔ StoresText l r ∧ s = textOf l := by
  have hslot : l.frame.slot = l.slot := rfl
  unfold textWrite StoresText isText subject textOf
  rw [hslot]
  by_cases hteach : (l.mr.isSome && decide (l.rc ≠ 0)) = true
  · rw [if_pos hteach]
    simp only [Bool.and_eq_true, decide_eq_true_eq] at hteach
    cases returnCase (slotName l.slot) with
    | getStringUTFChars => simp [hteach, Lesson.frame, eq_comm]
    | newStringUTF => simp [hteach, Lesson.frame, eq_comm]
    | getId => simp
    | findClass => simp
    | getObjectClass => simp
    | newObject => simp
    | other => simp
  · rw [if_neg hteach]
    simp only [Bool.and_eq_true, decide_eq_true_eq] at hteach
    simp only [reduceCtorEq, false_iff]
    rintro ⟨⟨-, hmr, hsubject⟩, -⟩
    by_cases hrc : l.rc = 0
    · simp [hrc] at hsubject
    · exact hteach ⟨hmr, hrc⟩

theorem jstr_taught (ls : List Lesson) :
    (taught ls).jstr = latest (fun l : Lesson => textWrite l.mr l.frame l.rc) ls :=
  foldl_eq_latest _ teach Caches.jstr
    (fun cs l => learn_jstr l.mr l.frame l.rc cs) rfl ls

/-- A value with a stored text has one that some string event read for it. -/
theorem jstr_of_storesText {ls : List Lesson} {r : UInt64} {l : Lesson} (hl : l ∈ ls)
    (h : StoresText l r) :
    ∃ l' ∈ ls, StoresText l' r ∧ (taught ls).jstr r = some (textOf l') := by
  rw [jstr_taught]
  cases hlatest : latest (fun l : Lesson => textWrite l.mr l.frame l.rc) ls r with
  | none =>
      rw [latest_eq_none_iff] at hlatest
      exact absurd rfl (hlatest l hl (r, textOf l) (textWrite_eq_some.mpr ⟨h, rfl⟩))
  | some s =>
      obtain ⟨l', hl', hwrite⟩ := mem_of_latest hlatest
      obtain ⟨hstores, rfl⟩ := textWrite_eq_some.mp hwrite
      exact ⟨l', hl', hstores, rfl⟩

theorem fmtArg_jstring {c : Caches} {mr : Option UserMemory} {v : UInt64} {s : Bytes}
    (h : c.jstr v = some s) : fmtArg c mr (str "jstring") v = quote s := by
  unfold fmtArg
  rw [if_neg (by decide), if_neg (by decide), if_neg (by decide), if_neg (by decide),
    if_pos (by decide)]
  simp only [fmtString, h]

/-- Throughout a sequence of events no stale text is shown exactly when no
event that is not about a string gives a meaning to a value for which an
earlier string event stored a text. -/
theorem no_stale_text_iff (ls : List Lesson) :
    (∀ before, before <+: ls → NoStale before) ↔
      ∀ before l, before ++ [l] <+: ls → isText l = false → ∀ r ∈ subject l,
        ∀ l' ∈ before, ¬ StoresText l' r := by
  constructor
  · intro h before l hwithin hother r hsubject l' hl' hstores
    have hrecent : MostRecent (before ++ [l]) r l := ⟨before, [], rfl, hsubject, by simp⟩
    obtain ⟨l'', hl'', hstores'', htext⟩ :=
      jstr_of_storesText (List.mem_append_left [l] hl') hstores
    obtain ⟨hshown, -⟩ := h _ hwithin r l hrecent hother l'' hl'' hstores'' none (str "jstring")
    exact hshown (fmtArg_jstring htext)
  · intro h before hwithin r l hrecent hother l' hl' hstores
    obtain ⟨pre, post, rfl, hsubject, hlater⟩ := hrecent
    exfalso
    rcases List.mem_append.mp hl' with hpre | hrest
    · have hpoint : pre ++ [l] <+: pre ++ l :: post := ⟨post, by simp⟩
      exact h pre l (hpoint.trans hwithin) hother r hsubject l' hpre hstores
    · rcases List.mem_cons.mp hrest with rfl | hpost
      · rw [hstores.1] at hother
        cases hother
      · exact hlater l' hpost hstores.2.2

namespace Scenario

/-- `NewStringUTF` of `A` returns the reference `0x100010`. -/
def stringLesson : Lesson := ⟨167, #v[0, 0x1100, 0, 0, 0], 0x100010, some classMemory⟩

/-- `NewObject` of the class `B` returns the same value. -/
def objectLesson : Lesson := ⟨28, #v[0, 0x100020, 0, 0, 0], 0x100010, some classMemory⟩

end Scenario

open Scenario in
/-- The new object is shown as the text of the string that had its reference. -/
theorem reused_reference_stale : ¬ NoStale [stringLesson, objectLesson] ∧
    fmtArg (taught [stringLesson, objectLesson]) (some classMemory) (str "jobject") 0x100010 =
      str "\"A\"" := by
  have hobject : MostRecent [stringLesson, objectLesson] 0x100010 objectLesson :=
    ⟨[stringLesson], [], rfl, by decide, by simp⟩
  have hstring : StoresText stringLesson 0x100010 := ⟨by decide, rfl, by decide⟩
  have hshown : fmtArg (taught [stringLesson, objectLesson]) (some classMemory) (str "jobject")
      0x100010 = quote (textOf stringLesson) := by
    decide +kernel
  refine ⟨?_, by decide +kernel⟩
  intro h
  exact (h 0x100010 objectLesson hobject (by decide) stringLesson (by simp) hstring _ _).1 hshown

end JniProbe
