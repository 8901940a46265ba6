import JniProbe.Lib.LatestWrite
import JniProbe.Loader.Trace

/-!
What a return teaches, cache by cache: each map changes in the cases that
name it, at one key, and `learn` leaves it alone otherwise.
-/

namespace JniProbe

open GoText

/-- `learn` reads the slot and the argument registers of a frame only. -/
theorem learn_congr (mr : Option UserMemory) {fr fr' : Frame} (rc : UInt64) (cs : Caches)
    (hslot : fr.slot = fr'.slot) (h1 : fr.a1 = fr'.a1) (h2 : fr.a2 = fr'.a2)
    (h3 : fr.a3 = fr'.a3) : learn mr fr rc cs = learn mr fr' rc cs := by
  obtain ⟨slot, ts, call, caller, a1, a2, a3⟩ := fr
  obtain ⟨slot', ts', call', caller', a1', a2', a3'⟩ := fr'
  dsimp only at hslot h1 h2 h3
  subst hslot h1 h2 h3
  rfl

/-- A string shorter than the buffer is read back whole. -/
theorem cstr_of_holdsString {mem : UserMemory} {a : UInt64} {s : Bytes}
    (h : mem.HoldsString a s) (hlen : s.length < 256) : cstr (some mem) a = s := by
  obtain ⟨rest, hrest⟩ := h.readRun_eq hlen
  have hread : readAt mem a 256 = s ++ 0 :: rest := by
    rw [readAt, if_pos h.user, hrest]
  have hne : s ++ 0 :: rest ≠ [] := by simp
  have hindex := indexByte_append s rest 0 h.nonzero
  simp only [cstr, h.nonnull, if_false, hread, hne, hindex, List.take_left']

/-- A string is read up to the length of the buffer. -/
theorem cstr_eq_take {mem : UserMemory} {a : UInt64} {s : Bytes} (h : mem.HoldsString a s) :
    cstr (some mem) a = s.take 256 := by
  by_cases hlen : s.length < 256
  · rw [cstr_of_holdsString h hlen, List.take_of_length_le hlen.le]
  · have hwithin : mem.readRun a 256 = s.take 256 := by
      rw [← UserMemory.take_readRun mem a (show 256 ≤ s.length + 1 by omega), h.bytes,
        List.take_append_of_le_length (by omega)]
    have hfull : (s.take 256).length = 256 := by
      rw [List.length_take]
      omega
    have hread : readAt mem a 256 = s.take 256 := by
      rw [readAt, if_pos h.user, hwithin]
    have hne : s.take 256 ≠ [] := List.ne_nil_of_length_pos (by omega)
    have hindex : indexByte (s.take 256) 0 = none :=
      indexByte_eq_none _ _ (fun hmem => h.nonzero (List.mem_of_mem_take hmem))
    simp only [cstr, h.nonnull, if_false, hread, hne, hindex, hfull, Nat.sub_self,
      List.replicate_zero, List.append_nil]

theorem length_of_validName {s : Bytes} (h : validName s = true) : s.length ≤ 200 := by
  simp only [validName, Bool.and_eq_true, decide_eq_true_eq] at h
  exact h.1.2

/-- A valid name is the whole string: the reader's buffer is longer than any
valid name. -/
theorem cstr_of_validName {mem : UserMemory} {a : UInt64} {s : Bytes} (h : mem.HoldsString a s)
    (hvalid : validName (cstr (some mem) a) = true) : cstr (some mem) a = s := by
  rw [cstr_eq_take h] at hvalid ⊢
  have hlen := length_of_validName hvalid
  rw [List.length_take] at hlen
  exact List.take_of_length_le (by omega)

theorem splitNameSig_append {name sig : Bytes} (hname : 40 ∉ name) (hsig : sig.head? = some 40) :
    splitNameSig (name ++ sig) = (name, sig) := by
  obtain ⟨rest, rfl⟩ : ∃ rest, sig = 40 :: rest := by
    cases sig with
    | nil => simp at hsig
    | cons b rest =>
        obtain rfl : b = 40 := by simpa using hsig
        exact ⟨rest, rfl⟩
  simp [splitNameSig, indexByte_append name rest 40 hname]

def isMethodLookup (nm : Bytes) : Bool :=
  nm = str "GetMethodID" || nm = str "GetStaticMethodID"

def isFieldLookup (nm : Bytes) : Bool :=
  nm = str "GetFieldID" || nm = str "GetStaticFieldID"

/-- The four functions whose return names an id. -/
theorem returnCase_getId (nm : Bytes) :
    returnCase nm = .getId ↔ isMethodLookup nm = true ∨ isFieldLookup nm = true := by
  have hnames : (isMethodLookup nm = true ∨ isFieldLookup nm = true) ↔
      (nm = str "GetMethodID" ∨ nm = str "GetStaticMethodID" ∨ nm = str "GetFieldID" ∨
        nm = str "GetStaticFieldID") := by
    simp only [isMethodLookup, isFieldLookup, Bool.or_eq_true, decide_eq_true_eq, or_assoc]
  rw [hnames]
  unfold returnCase
  split
  · rename_i hlookup
    exact iff_of_true rfl hlookup
  · rename_i hlookup
    refine iff_of_false ?_ hlookup
    repeat' split
    all_goals simp

theorem returnCase_findClass (nm : Bytes) :
    returnCase nm = .findClass ↔ nm = str "FindClass" := by
  constructor
  · intro h
    unfold returnCase at h
    split at h
    · cases h
    · split at h
      · assumption
      · revert h
        repeat' split
        all_goals simp
  · rintro rfl
    decide

section Learn

variable (mr : Option UserMemory) (fr : Frame) (rc : UInt64) (cs : Caches)

/-- The id that this return names: an id lookup with a valid name and signature. -/
def namesId : Bool :=
  mr.isSome && rc ≠ 0 && returnCase (slotName fr.slot) = .getId && validName (cstr mr fr.a2) &&
    validSig (cstr mr fr.a3)

theorem learnObjClass_idName (o cl : UInt64) : (learnObjClass mr o cl cs).idName = cs.idName := by
  unfold learnObjClass
  dsimp only
  split <;> rfl

theorem learnFindClass_idName : (learnFindClass mr fr rc cs).idName = cs.idName := by
  unfold learnFindClass
  dsimp only
  split <;> rfl

/-- Only an id lookup changes `idName`, and only at the id it returned. -/
theorem learn_idName : (learn mr fr rc cs).idName =
    if namesId mr fr rc then
      Function.update cs.idName rc (some (cstr mr fr.a2 ++ cstr mr fr.a3))
    else cs.idName := by
  unfold learn namesId
  cases hteach : mr.isSome && decide (rc ≠ 0) with
  | false => simp
  | true =>
      simp only [if_true, Bool.true_and]
      cases returnCase (slotName fr.slot) with
      | getId => simp [learnCase, learnId]
      | findClass => simp [learnCase, learnFindClass_idName]
      | getObjectClass => simp [learnCase, learnObjClass_idName]
      | newObject => simp [learnCase, learnObjClass_idName]
      | getStringUTFChars => simp [learnCase]
      | newStringUTF => simp [learnCase]
      | other => simp [learnCase]

/-- The class reference that this return stores with an id. -/
def ownerWrite : Option (UInt64 × UInt64) :=
  if mr.isSome && rc ≠ 0 && returnCase (slotName fr.slot) = .getId then some (rc, fr.a1) else none

/-- The class object that this return names. -/
def classWrite : Option (UInt64 × Bytes) :=
  if mr.isSome && rc ≠ 0 && returnCase (slotName fr.slot) = .findClass &&
      validName (cstr mr fr.a1) && resolveObj mr rc ≠ 0 then
    some (resolveObj mr rc, replaceByte (cstr mr fr.a1) 47 46)
  else none

theorem classWrite_eq_some {p : UInt64} {n : Bytes} (h : classWrite mr fr rc = some (p, n)) :
    slotName fr.slot = str "FindClass" ∧ mr.isSome = true ∧ rc ≠ 0 ∧
      validName (cstr mr fr.a1) = true ∧ resolveObj mr rc = p ∧
      n = replaceByte (cstr mr fr.a1) 47 46 := by
  unfold classWrite at h
  split at h
  · rename_i hcond
    simp only [Bool.and_eq_true, decide_eq_true_eq] at hcond
    obtain ⟨⟨⟨⟨hmr, hrc⟩, hcase⟩, hvalid⟩, -⟩ := hcond
    obtain ⟨rfl, rfl⟩ := Prod.mk.inj (Option.some.inj h)
    exact ⟨(returnCase_findClass _).mp hcase, hmr, hrc, hvalid, rfl, rfl⟩
  · cases h

/-- The string text that this return stores. -/
def textWrite : Option (UInt64 × Bytes) :=
  if mr.isSome && rc ≠ 0 then
    match returnCase (slotName fr.slot) with
    | .getStringUTFChars => some (fr.a1, cstr mr rc)
    | .newStringUTF => some (rc, cstr mr fr.a1)
    | _ => none
  else none

theorem learnObjClass_other (o cl : UInt64) :
    (learnObjClass mr o cl cs).idClass = cs.idClass ∧
      (learnObjClass mr o cl cs).nameByClass = cs.nameByClass ∧
      (learnObjClass mr o cl cs).jstr = cs.jstr := by
  unfold learnObjClass
  dsimp only
  split
  · exact ⟨rfl, rfl, rfl⟩
  · exact ⟨rfl, rfl, rfl⟩

theorem learnFindClass_other :
    (learnFindClass mr fr rc cs).idClass = cs.idClass ∧
      (learnFindClass mr fr rc cs).jstr = cs.jstr := by
  unfold learnFindClass
  dsimp only
  split
  · exact ⟨rfl, rfl⟩
  · exact ⟨rfl, rfl⟩

theorem learn_idClass :
    (learn mr fr rc cs).idClass = LatestWrite.put cs.idClass (ownerWrite mr fr rc) := by
  unfold learn ownerWrite
  cases hteach : mr.isSome && decide (rc ≠ 0) with
  | false => simp
  | true =>
      simp only [if_true, Bool.true_and, decide_eq_true_eq]
      cases returnCase (slotName fr.slot) with
      | getId => rfl
      | findClass => simp [learnCase, (learnFindClass_other mr fr rc cs).1]
      | getObjectClass => simp [learnCase, (learnObjClass_other mr cs _ _).1]
      | newObject => simp [learnCase, (learnObjClass_other mr cs _ _).1]
      | getStringUTFChars => rfl
      | newStringUTF => rfl
      | other => rfl

theorem learn_nameByClass :
    (learn mr fr rc cs).nameByClass = LatestWrite.put cs.nameByClass (classWrite mr fr rc) := by
  unfold learn classWrite
  cases hteach : mr.isSome && decide (rc ≠ 0) with
  | false => simp
  | true =>
      simp only [if_true, Bool.true_and]
      cases returnCase (slotName fr.slot) with
      | getId => rfl
      | findClass =>
          by_cases hvalid : validName (cstr mr fr.a1) = true
          · by_cases hobj : resolveObj mr rc = 0
            · simp [learnCase, learnFindClass, hvalid, hobj]
            · simp [learnCase, learnFindClass, hvalid, hobj, LatestWrite.put_some]
          · simp [learnCase, learnFindClass, hvalid]
      | getObjectClass => simp [learnCase, (learnObjClass_other mr cs _ _).2.1]
      | newObject => simp [learnCase, (learnObjClass_other mr cs _ _).2.1]
      | getStringUTFChars => rfl
      | newStringUTF => rfl
      | other => rfl

theorem learn_jstr :
    (learn mr fr rc cs).jstr = LatestWrite.put cs.jstr (textWrite mr fr rc) := by
  unfold learn textWrite
  cases hteach : mr.isSome && decide (rc ≠ 0) with
  | false => simp
  | true =>
      simp only [if_true]
      cases returnCase (slotName fr.slot) with
      | getId => rfl
      | findClass => exact (learnFindClass_other mr fr rc cs).2
      | getObjectClass => exact (learnObjClass_other mr cs _ _).2.2
      | newObject => exact (learnObjClass_other mr cs _ _).2.2
      | getStringUTFChars => rfl
      | newStringUTF => rfl
      | other => rfl

end Learn

/-! ### What `describeCall` needs to know -/

section Describe

variable {e : Evt} {nm : Bytes} {ix : Fin nargs} (c : Caches) (mr : Option UserMemory)

theorem describeCall_known (hix : isCallMethod nm = some ix) :
    (describeCall e nm c mr).2 = (c.idName (e.a.get ix)).isSome := by
  unfold describeCall
  rw [hix]
  dsimp only
  cases hname : c.idName (e.a.get ix) <;> rfl

/-- The text of a call whose method id is stored with this name and signature. -/
theorem describeCall_of_idName (hix : isCallMethod nm = some ix) {name sig : Bytes}
    (hname : c.idName (e.a.get ix) = some (name ++ sig)) (hplain : 40 ∉ name)
    (hsig : sig.head? = some 40) :
    describeCall e nm c mr =
      (describeClass e (e.a.get ix) c mr ++ str "." ++ name ++ str "(" ++
        join (decodeArgs e nm (parseParams sig) c mr) (str ", ") ++ str ")", true) := by
  unfold describeCall
  rw [hix]
  dsimp only
  rw [hname]
  dsimp only
  rw [splitNameSig_append hplain hsig]

end Describe

/-! ### Caches that agree at one id -/

/-- The two maps keyed by ids are compared at `id` only. -/
structure AgreeAt (id : UInt64) (c c' : Caches) : Prop where
  idName : c.idName id = c'.idName id
  idClass : c.idClass id = c'.idClass id
  classNames : c.classNames = c'.classNames
  nameByClass : c.nameByClass = c'.nameByClass
  objClass : c.objClass = c'.objClass
  jstr : c.jstr = c'.jstr

theorem AgreeAt.refl (id : UInt64) (c : Caches) : AgreeAt id c c := ⟨rfl, rfl, rfl, rfl, rfl, rfl⟩

theorem update_agree {α : Type*} {f f' : UInt64 → Option α} {id : UInt64} (h : f id = f' id)
    (k : UInt64) (v : Option α) : Function.update f k v id = Function.update f' k v id := by
  by_cases hk : id = k
  · subst hk
    rw [Function.update_self, Function.update_self]
  · rw [Function.update_of_ne hk, Function.update_of_ne hk, h]

section Agree

variable {id : UInt64} {c c' : Caches} (h : AgreeAt id c c') (mr : Option UserMemory) (fr : Frame)
  (rc : UInt64)

include h

theorem AgreeAt.learnId : AgreeAt id (learnId mr fr rc c) (learnId mr fr rc c') := by
  unfold JniProbe.learnId
  refine ⟨?_, update_agree h.idClass _ _, h.classNames, h.nameByClass, h.objClass, h.jstr⟩
  dsimp only
  split
  · exact update_agree h.idName _ _
  · exact h.idName

theorem AgreeAt.learnFindClass :
    AgreeAt id (learnFindClass mr fr rc c) (learnFindClass mr fr rc c') := by
  unfold JniProbe.learnFindClass
  dsimp only
  split
  · refine ⟨h.idName, h.idClass, ?_, ?_, h.objClass, h.jstr⟩
    · rw [h.classNames]
    · rw [h.nameByClass]
  · exact h

theorem AgreeAt.learnObjClass (o cl : UInt64) :
    AgreeAt id (learnObjClass mr o cl c) (learnObjClass mr o cl c') := by
  unfold JniProbe.learnObjClass
  dsimp only
  split
  · refine ⟨h.idName, h.idClass, h.classNames, h.nameByClass, ?_, h.jstr⟩
    rw [h.objClass]
  · exact h

/-- What both learn keeps them in agreement. -/
theorem AgreeAt.learn : AgreeAt id (learn mr fr rc c) (learn mr fr rc c') := by
  unfold JniProbe.learn
  split
  · cases returnCase (slotName fr.slot) with
    | getId => exact h.learnId mr fr rc
    | findClass => exact h.learnFindClass mr fr rc
    | getObjectClass => exact h.learnObjClass mr fr.a1 rc
    | newObject => exact h.learnObjClass mr rc fr.a1
    | getStringUTFChars =>
        refine ⟨h.idName, h.idClass, h.classNames, h.nameByClass, h.objClass, ?_⟩
        simp only [learnCase]
        rw [h.jstr]
    | newStringUTF =>
        refine ⟨h.idName, h.idClass, h.classNames, h.nameByClass, h.objClass, ?_⟩
        simp only [learnCase]
        rw [h.jstr]
    | other => exact h
  · exact h

end Agree

/-- A lookup of another id is not noticed. -/
theorem AgreeAt.learn_lookup {id : UInt64} {c c' : Caches} (h : AgreeAt id c c')
    (mr : Option UserMemory) (fr : Frame) {rc : UInt64}
    (hcase : returnCase (slotName fr.slot) = .getId) (hid : rc ≠ id) :
    AgreeAt id (JniProbe.learn mr fr rc c) c' := by
  unfold JniProbe.learn
  split
  · rw [hcase]
    refine ⟨?_, ?_, h.classNames, h.nameByClass, h.objClass, h.jstr⟩
    · simp only [learnCase, JniProbe.learnId]
      split
      · rw [Function.update_of_ne hid.symm, h.idName]
      · exact h.idName
    · simp only [learnCase, JniProbe.learnId]
      rw [Function.update_of_ne hid.symm, h.idClass]
  · exact h

/-! ### What the readers of the caches depend on -/

section Readers

variable {c c' : Caches} (mr : Option UserMemory)

theorem classNameOfRef_congr (hnames : c.classNames = c'.classNames)
    (hclass : c.nameByClass = c'.nameByClass) (v : UInt64) :
    classNameOfRef c mr v = classNameOfRef c' mr v := by
  unfold classNameOfRef
  rw [hnames, hclass]

theorem objClassName_congr (hnames : c.classNames = c'.classNames)
    (hclass : c.nameByClass = c'.nameByClass) (hjstr : c.jstr = c'.jstr) (v : UInt64) :
    objClassName c mr v = objClassName c' mr v := by
  unfold objClassName
  rw [hjstr, classNameOfRef_congr mr hnames hclass]

variable {id : UInt64} (h : AgreeAt id c c')

include h

theorem AgreeAt.fmtJV (t : Bytes) (v : UInt64) : fmtJV t v c mr = fmtJV t v c' mr := by
  unfold JniProbe.fmtJV
  rw [objClassName_congr mr h.classNames h.nameByClass h.jstr]

theorem AgreeAt.decodeVFrom (e : Evt) (params : List Bytes) (grOffs : Int64) (stack : UInt64) :
    decodeVFrom e c mr params grOffs stack = decodeVFrom e c' mr params grOffs stack := by
  induction params generalizing grOffs stack with
  | nil => rfl
  | cons t rest ih => simp only [JniProbe.decodeVFrom, ih, h.fmtJV mr]

theorem AgreeAt.decodeArgs (e : Evt) (nm : Bytes) (params : List Bytes) :
    decodeArgs e nm params c mr = decodeArgs e nm params c' mr := by
  simp only [JniProbe.decodeArgs, decodeA, decodeV, decodeDirect, h.fmtJV mr,
    h.decodeVFrom mr]

theorem AgreeAt.describeClass (e : Evt) :
    describeClass e id c mr = describeClass e id c' mr := by
  simp only [JniProbe.describeClass, h.idClass,
    classNameOfRef_congr mr h.classNames h.nameByClass]

/-- A call through `id` is described alike. -/
theorem AgreeAt.describeCall {e : Evt} {nm : Bytes} {ix : Fin nargs}
    (hix : isCallMethod nm = some ix) (hid : e.a.get ix = id) :
    describeCall e nm c mr = describeCall e nm c' mr := by
  unfold JniProbe.describeCall
  rw [hix]
  dsimp only
  rw [hid, h.idName]
  simp only [h.describeClass mr, h.decodeArgs mr]

theorem AgreeAt.fmtId : fmtId c id = fmtId c' id := by
  unfold JniProbe.fmtId
  rw [h.idName]

end Readers

/-! ### Depths and descriptions -/

theorem decodeVFrom_withDepth (e : Evt) (x : Int32) (c : Caches) (mr : Option UserMemory)
    (params : List Bytes) (grOffs : Int64) (stack : UInt64) :
    decodeVFrom (e.withDepth x) c mr params grOffs stack =
      decodeVFrom e c mr params grOffs stack := by
  induction params generalizing grOffs stack with
  | nil => rfl
  | cons t rest ih =>
      simp only [decodeVFrom, ih]
      rfl

/-- The description of a call does not depend on the depth of its record. -/
theorem describeCall_withDepth (e : Evt) (x : Int32) (nm : Bytes) (c : Caches)
    (mr : Option UserMemory) :
    describeCall (e.withDepth x) nm c mr = describeCall e nm c mr := by
  have hargs (params : List Bytes) :
      decodeArgs (e.withDepth x) nm params c mr = decodeArgs e nm params c mr := by
    simp only [decodeArgs, decodeV, decodeVFrom_withDepth]
    rfl
  simp only [describeCall, hargs]
  rfl

end JniProbe
