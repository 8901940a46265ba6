import JniProbe.Loader.Learning

/-!
What a return takes from the target's memory. The caches depend on the memory
through a text and at most two objects, so two memories that give these alike
teach alike, and no others do.
-/

namespace JniProbe

open GoText

/-- The text and the objects that the case of a return takes from memory.
Texts that fail their check and objects of an incomplete pair are dropped. -/
structure Intake where
  text : Option Bytes
  first : UInt64
  second : UInt64
  deriving DecidableEq

namespace Intake

def nothing : Intake := ⟨none, 0, 0⟩

def ofText (s : Bytes) : Intake := ⟨some s, 0, 0⟩

def ofPair (o cl : UInt64) : Intake := if o ≠ 0 ∧ cl ≠ 0 then ⟨none, o, cl⟩ else nothing

end Intake

def intake (nm : ReturnCase) (mr : Option UserMemory) (fr : Frame) (rc : UInt64) : Intake :=
  match nm with
  | .getId =>
    if validName (cstr mr fr.a2) && validSig (cstr mr fr.a3) then
      .ofText (cstr mr fr.a2 ++ cstr mr fr.a3)
    else .nothing
  | .findClass =>
    if validName (cstr mr fr.a1) then
      ⟨some (replaceByte (cstr mr fr.a1) 47 46), resolveObj mr rc, 0⟩
    else .nothing
  | .getObjectClass => .ofPair (resolveObj mr fr.a1) (resolveObj mr rc)
  | .newObject => .ofPair (resolveObj mr rc) (resolveObj mr fr.a1)
  | .getStringUTFChars => .ofText (cstr mr rc)
  | .newStringUTF => .ofText (cstr mr fr.a1)
  | .other => .nothing

/-- The cache updates of a case, given what it took. -/
def digest (nm : ReturnCase) (i : Intake) (fr : Frame) (rc : UInt64) (cs : Caches) : Caches :=
  match nm, i.text with
  | .getId, some s =>
    { cs with
      idName := Function.update cs.idName rc (some s)
      idClass := Function.update cs.idClass rc (some fr.a1) }
  | .getId, none => { cs with idClass := Function.update cs.idClass rc (some fr.a1) }
  | .findClass, some s =>
    { cs with
      classNames := Function.update cs.classNames rc (some s)
      nameByClass :=
        if i.first ≠ 0 then Function.update cs.nameByClass i.first (some s)
        else cs.nameByClass }
  | .getStringUTFChars, some s => { cs with jstr := Function.update cs.jstr fr.a1 (some s) }
  | .newStringUTF, some s => { cs with jstr := Function.update cs.jstr rc (some s) }
  | .getObjectClass, _ | .newObject, _ =>
    if i.first ≠ 0 then
      { cs with objClass := Function.update cs.objClass i.first (some i.second) }
    else cs
  | _, _ => cs

section Intake

variable (mr mr' : Option UserMemory) (fr : Frame) (rc : UInt64) (cs : Caches)

theorem digest_ofPair (nm : ReturnCase) (hnm : nm = .getObjectClass ∨ nm = .newObject)
    (o cl : UInt64) : digest nm (.ofPair o cl) fr rc cs =
      if o ≠ 0 ∧ cl ≠ 0 then { cs with objClass := Function.update cs.objClass o (some cl) }
      else cs := by
  by_cases hboth : o ≠ 0 ∧ cl ≠ 0
  · rcases hnm with rfl | rfl
    · simp [Intake.ofPair, digest, hboth]
    · simp [Intake.ofPair, digest, hboth]
  · rcases hnm with rfl | rfl
    · simp only [Intake.ofPair, if_neg hboth]
      rfl
    · simp only [Intake.ofPair, if_neg hboth]
      rfl

/-- A case reads nothing but its intake. -/
theorem learnCase_eq_digest (nm : ReturnCase) :
    learnCase nm mr fr rc cs = digest nm (intake nm mr fr rc) fr rc cs := by
  cases nm with
  | getId =>
      by_cases hvalid : (validName (cstr mr fr.a2) && validSig (cstr mr fr.a3)) = true
      · simp [learnCase, learnId, intake, digest, Intake.ofText, hvalid]
      · simp [learnCase, learnId, intake, digest, Intake.nothing, hvalid]
  | findClass =>
      by_cases hvalid : validName (cstr mr fr.a1) = true
      · simp [learnCase, learnFindClass, intake, digest, hvalid]
      · simp [learnCase, learnFindClass, intake, digest, Intake.nothing, hvalid]
  | getObjectClass =>
      rw [intake, digest_ofPair _ _ _ _ (Or.inl rfl)]
      rfl
  | newObject =>
      rw [intake, digest_ofPair _ _ _ _ (Or.inr rfl)]
      rfl
  | getStringUTFChars => rfl
  | newStringUTF => rfl
  | other => rfl

/-- The same intake at another moment teaches the same. -/
theorem learn_of_intake (hreader : mr.isSome = mr'.isSome)
    (h : intake (returnCase (slotName fr.slot)) mr fr rc =
      intake (returnCase (slotName fr.slot)) mr' fr rc) :
    learn mr fr rc cs = learn mr' fr rc cs := by
  unfold learn
  rw [hreader, learnCase_eq_digest, learnCase_eq_digest, h]

/-- On empty caches the objects of a pair show. -/
theorem ofPair_of_digest {nm : ReturnCase} (hnm : nm = .getObjectClass ∨ nm = .newObject)
    {o cl o' cl' : UInt64} (h : digest nm (.ofPair o cl) fr rc newCaches =
      digest nm (.ofPair o' cl') fr rc newCaches) : Intake.ofPair o cl = .ofPair o' cl' := by
  rw [digest_ofPair _ _ _ _ hnm, digest_ofPair _ _ _ _ hnm] at h
  have hmap := congrArg Caches.objClass h
  unfold Intake.ofPair
  by_cases hboth : o ≠ 0 ∧ cl ≠ 0
  · by_cases hboth' : o' ≠ 0 ∧ cl' ≠ 0
    · rw [if_pos hboth, if_pos hboth'] at hmap ⊢
      have hat := congrFun hmap o
      dsimp only at hat
      rw [Function.update_self] at hat
      by_cases ho : o = o'
      · subst ho
        rw [Function.update_self] at hat
        rw [Option.some.inj hat]
      · rw [Function.update_of_ne ho] at hat
        cases hat
    · rw [if_pos hboth, if_neg hboth'] at hmap
      have hat := congrFun hmap o
      dsimp only at hat
      rw [Function.update_self] at hat
      cases hat
  · by_cases hboth' : o' ≠ 0 ∧ cl' ≠ 0
    · rw [if_neg hboth, if_pos hboth'] at hmap
      have hat := congrFun hmap o'
      dsimp only at hat
      rw [Function.update_self] at hat
      cases hat
    · rw [if_neg hboth, if_neg hboth']

/-- On empty caches the class that was named shows. -/
theorem class_of_digest {s s' : Bytes} {o o' : UInt64}
    (h : digest .findClass ⟨some s, o, 0⟩ fr rc newCaches =
      digest .findClass ⟨some s', o', 0⟩ fr rc newCaches) : s = s' ∧ o = o' := by
  have hname := congrFun (congrArg Caches.classNames h) rc
  simp only [digest, Function.update_self, Option.some.injEq] at hname
  subst hname
  refine ⟨rfl, ?_⟩
  have hmap := congrArg Caches.nameByClass h
  simp only [digest] at hmap
  by_cases ho : o = 0
  · subst ho
    by_cases ho' : o' = 0
    · exact ho'.symm
    · have hat := congrFun hmap o'
      simp [ho', newCaches] at hat
  · have hat := congrFun hmap o
    rw [if_pos ho, Function.update_self] at hat
    by_cases hsame : o = o'
    · exact hsame
    · exfalso
      split at hat
      · rw [Function.update_of_ne hsame] at hat
        cases hat
      · cases hat

/-- What is taught to empty caches determines the intake. -/
theorem intake_of_learnCase (nm : ReturnCase)
    (h : learnCase nm mr fr rc newCaches = learnCase nm mr' fr rc newCaches) :
    intake nm mr fr rc = intake nm mr' fr rc := by
  rw [learnCase_eq_digest, learnCase_eq_digest] at h
  cases nm with
  | getId =>
      have hat := congrFun (congrArg Caches.idName h) rc
      unfold intake at hat ⊢
      dsimp only at hat ⊢
      split <;> split <;>
        simp_all [digest, Intake.ofText, Intake.nothing, newCaches]
  | findClass =>
      unfold intake at h ⊢
      dsimp only at h ⊢
      by_cases hvalid : validName (cstr mr fr.a1) = true
      · by_cases hvalid' : validName (cstr mr' fr.a1) = true
        · rw [if_pos hvalid, if_pos hvalid'] at h ⊢
          obtain ⟨hname, hobj⟩ := class_of_digest fr rc h
          rw [hname, hobj]
        · rw [if_pos hvalid, if_neg hvalid'] at h
          have hat := congrFun (congrArg Caches.classNames h) rc
          simp [digest, Intake.nothing, newCaches] at hat
      · by_cases hvalid' : validName (cstr mr' fr.a1) = true
        · rw [if_neg hvalid, if_pos hvalid'] at h
          have hat := congrFun (congrArg Caches.classNames h) rc
          simp [digest, Intake.nothing, newCaches] at hat
        · rw [if_neg hvalid, if_neg hvalid']
  | getObjectClass => exact ofPair_of_digest fr rc (Or.inl rfl) h
  | newObject => exact ofPair_of_digest fr rc (Or.inr rfl) h
  | getStringUTFChars =>
      have hat := congrFun (congrArg Caches.jstr h) fr.a1
      simp only [intake, digest, Intake.ofText, Function.update_self, Option.some.injEq] at hat ⊢
      rw [hat]
  | newStringUTF =>
      have hat := congrFun (congrArg Caches.jstr h) rc
      simp only [intake, digest, Intake.ofText, Function.update_self, Option.some.injEq] at hat ⊢
      rw [hat]
  | other => rfl

/-- Two memories teach every cache the same exactly when they give the return
the same intake. -/
theorem learn_eq_iff (mem mem' : UserMemory) :
    (∀ cs, learn (some mem) fr rc cs = learn (some mem') fr rc cs) ↔
      rc = 0 ∨ intake (returnCase (slotName fr.slot)) (some mem) fr rc =
        intake (returnCase (slotName fr.slot)) (some mem') fr rc := by
  constructor
  · intro h
    by_cases hrc : rc = 0
    · exact Or.inl hrc
    · right
      have hempty := h newCaches
      simp only [learn, Option.isSome_some, Bool.true_and, hrc, ne_eq, not_false_eq_true,
        decide_true, if_true] at hempty
      exact intake_of_learnCase _ _ _ _ _ hempty
  · rintro (rfl | h) cs
    · simp [learn]
    · exact learn_of_intake _ _ _ _ _ rfl h

end Intake

end JniProbe
