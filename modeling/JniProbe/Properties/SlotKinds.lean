import JniProbe.Loader.Learning
import JniProbe.Properties.Lines

/-!
Which functions are described as calls. The prefixes of a name decide it, and
the schema says which arguments are ids; the two agree on every function but
`NewObjectArray`, whose class argument is looked up as a method id.
-/

namespace JniProbe

open GoText GoFormat

/-- The schema lists a method or field id among the arguments. -/
def takesId (slot : Nat) : Bool :=
  (slotArgs slot).contains (str "jmethodID") || (slotArgs slot).contains (str "jfieldID")

/-- Other entries in the maps of the ids. -/
def Caches.withIds (c : Caches) (idName : UInt64 → Option Bytes)
    (idClass : UInt64 → Option UInt64) : Caches :=
  { c with idName := idName, idClass := idClass }

/-- Two caches that differ in the maps of the ids alone: an entry of the function
prints the same line or none, and stores the same text. -/
def IgnoresIds (slot : Nat) : Prop :=
  ∀ S env frames c idName idClass e, S.slotAt (e.ip - S.base) = some slot →
    (handleEntry S env ⟨frames, c⟩ e).2 =
        (handleEntry S env ⟨frames, c.withIds idName idClass⟩ e).2 ∧
      (handleEntry S env ⟨frames, c⟩ e).1.frames =
        (handleEntry S env ⟨frames, c.withIds idName idClass⟩ e).1.frames

section Generic

variable (c : Caches) (idName : UInt64 → Option Bytes) (idClass : UInt64 → Option UInt64)
  (mr : Option UserMemory)

/-- Only the arguments of the two id types are looked up in the maps of the ids. -/
theorem fmtArg_withIds {typ : Bytes} (hmethod : typ ≠ str "jmethodID")
    (hfield : typ ≠ str "jfieldID") (v : UInt64) :
    fmtArg c mr typ v = fmtArg (c.withIds idName idClass) mr typ v := by
  have hclass (v : UInt64) :
      classNameOfRef c mr v = classNameOfRef (c.withIds idName idClass) mr v :=
    classNameOfRef_congr mr rfl rfl v
  have hobj (v : UInt64) : objClassName c mr v = objClassName (c.withIds idName idClass) mr v :=
    objClassName_congr mr rfl rfl rfl v
  have hstring (v : UInt64) : fmtString c mr v = fmtString (c.withIds idName idClass) mr v := by
    unfold fmtString
    rw [hclass]
    rfl
  unfold fmtArg
  simp only [hmethod, hfield, or_self, if_false, hclass, hobj, hstring]

theorem renderGeneric_withIds {slot : Nat} (hfree : takesId slot = false) (e : Evt) :
    renderGeneric e slot c mr = renderGeneric e slot (c.withIds idName idClass) mr := by
  simp only [takesId, Bool.or_eq_false_iff, List.contains_eq_mem, decide_eq_false_iff_not] at hfree
  unfold renderGeneric
  dsimp only
  split
  · rfl
  · have hargs : ((slotArgs slot).zip e.a.toList).tail.map (fun p => fmtArg c mr p.1 p.2) =
        ((slotArgs slot).zip e.a.toList).tail.map
          (fun p => fmtArg (c.withIds idName idClass) mr p.1 p.2) := by
      apply List.map_congr_left
      intro p hp
      have htyp : p.1 ∈ slotArgs slot := (List.of_mem_zip (List.mem_of_mem_tail hp)).1
      apply fmtArg_withIds
      · rintro hmethod
        rw [hmethod] at htyp
        exact hfree.1 htyp
      · rintro hfield
        rw [hfield] at htyp
        exact hfree.2 htyp
    rw [hargs]

theorem genericLine_withIds {slot : Nat} (hfree : takesId slot = false) (e : Evt) :
    genericLine e slot c mr = genericLine e slot (c.withIds idName idClass) mr := by
  unfold genericLine
  rw [renderGeneric_withIds c idName idClass mr hfree]

end Generic

theorem ignoresIds_of_generic {slot : Nat} (hfree : takesId slot = false)
    (hcall : Session.callSet slot = false) : IgnoresIds slot := by
  intro S env frames c idName idClass e hslot
  have hix : isCallMethod (slotName slot) = none := by
    simpa [Session.callSet] using hcall
  have htext := genericLine_withIds c idName idClass env.mr hfree e
  have hframe : newFrame env e slot c = newFrame env e slot (c.withIds idName idClass) := by
    unfold newFrame
    rw [htext]
  unfold handleEntry
  rw [hslot]
  dsimp only
  rw [hix, htext, hframe]
  split
  · exact ⟨rfl, rfl⟩
  · split
    · exact ⟨rfl, rfl⟩
    · dsimp only
      split
      · exact ⟨rfl, rfl⟩
      · exact ⟨rfl, rfl⟩

/-- The names that are taken for calls belong to functions with a method id, but
for one. -/
theorem callSet_takesId {slot : Nat} (hcall : Session.callSet slot = true) :
    takesId slot = true ∨ slotName slot = str "NewObjectArray" := by
  have htable : ∀ slot < 233, Session.callSet slot = true →
      takesId slot = true ∨ slotName slot = str "NewObjectArray" := by
    decide +kernel
  by_cases hslot : slot < 233
  · exact htable slot hslot hcall
  · have hschema : jniSchema[slot]? = none :=
      List.getElem?_eq_none (Nat.not_lt.mp hslot)
    have hnames : jniNames[slot]? = none :=
      List.getElem?_eq_none (Nat.not_lt.mp hslot)
    have hname : slotName slot = str "slot" ++ digits 10 slot := by
      unfold slotName
      rw [hschema]
      dsimp only
      rw [hnames]
    rw [Session.callSet, hname] at hcall
    cases hcall

namespace Scenario

/-- Caches in which every id has a name. -/
def namedIds : Caches := newCaches.withIds (fun _ => some (str "f()V")) (fun _ => none)

def plainEnv : Env := ⟨none, fun _ => [], filters⟩

theorem slotAt_single (slot : Nat) : (session (table [slot])).slotAt (blank.ip - 0) = some slot :=
  rfl

theorem selected_single (slot : Nat) :
    selected (session (table [slot])) plainEnv.filters slot blank.depth = true := rfl

end Scenario

open Scenario in
/-- What looks like a call prints a line if its second argument is a named id. -/
theorem call_reads_ids {slot : Nat} (hcall : Session.callSet slot = true) :
    (handleEntry (session (table [slot])) plainEnv ⟨fun _ => none, namedIds⟩ blank).2.isSome =
        true ∧
      (handleEntry (session (table [slot])) plainEnv ⟨fun _ => none, newCaches⟩ blank).2 =
        none := by
  obtain ⟨ix, hix⟩ := Option.isSome_iff_exists.mp hcall
  have hknown : (describeCall blank (slotName slot) namedIds none).2 = true := by
    rw [describeCall, hix]
    rfl
  have hunknown : (describeCall blank (slotName slot) newCaches none).2 = false := by
    rw [describeCall, hix]
    rfl
  constructor
  · rw [entry_emits_call _ plainEnv _ blank (slotAt_single slot) hcall, selected_single]
    have hmr : plainEnv.mr = none := rfl
    rw [hmr, hknown]
    rfl
  · rw [← Option.not_isSome_iff_eq_none,
      entry_emits_call _ plainEnv _ blank (slotAt_single slot) hcall, selected_single]
    have hmr : plainEnv.mr = none := rfl
    rw [hmr, hunknown]
    exact Bool.false_ne_true

/-- A function without id arguments ignores the maps of the ids, except for
`NewObjectArray`. -/
theorem ignores_ids_iff (slot : Nat) (hfree : takesId slot = false) :
    IgnoresIds slot ↔ slotName slot ≠ str "NewObjectArray" := by
  constructor
  · intro h hname
    have hcall : Session.callSet slot = true := by
      rw [Session.callSet, hname]
      decide
    obtain ⟨hnamed, hunnamed⟩ := call_reads_ids hcall
    have hsame := (h (Scenario.session (Scenario.table [slot])) Scenario.plainEnv (fun _ => none)
      newCaches (fun _ => some (str "f()V")) (fun _ => none) Scenario.blank
      (Scenario.slotAt_single slot)).1
    rw [hunnamed] at hsame
    rw [Scenario.namedIds, ← hsame] at hnamed
    cases hnamed
  · intro hname
    cases hcall : Session.callSet slot with
    | false => exact ignoresIds_of_generic hfree hcall
    | true =>
        rcases callSet_takesId hcall with htakes | harray
        · rw [hfree] at htakes
          cases htakes
        · exact absurd harray hname

open Scenario in
/-- `NewObjectArray` with the class reference `0x5000`: as long as no method id
has this value the call is not printed, and afterwards it is printed as a call
of the method. -/
theorem array_class_taken_for_id :
    takesId 172 = false ∧ slotName 172 = str "NewObjectArray" ∧
      (handleEntry (session (table [172])) plainEnv ⟨fun _ => none, newCaches⟩
        { blank with a := Vector.replicate nargs 0x5000 }).2 = none ∧
      (handleEntry (session (table [172])) plainEnv ⟨fun _ => none, namedIds⟩
        { blank with a := Vector.replicate nargs 0x5000 }).2 = some (str "-> 0x5000.f()") ∧
      ¬ IgnoresIds 172 := by
  have hfree : takesId 172 = false := by decide +kernel
  have hname : slotName 172 = str "NewObjectArray" := by decide +kernel
  refine ⟨hfree, hname, by decide +kernel, by decide +kernel, ?_⟩
  intro h
  have hsame := (h (session (table [172])) plainEnv (fun _ => none) newCaches
    (fun _ => some (str "f()V")) (fun _ => none) { blank with a := Vector.replicate nargs 0x5000 }
    rfl).1
  exact absurd hsame (by decide +kernel)

/-- `FindClass` ignores them. -/
theorem ignores_ids_findClass : IgnoresIds 6 :=
  (ignores_ids_iff 6 (by decide +kernel)).mpr (by decide +kernel)

end JniProbe
