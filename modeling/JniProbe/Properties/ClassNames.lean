import JniProbe.Properties.IdSpaces

/-!
Rendered classes. `classNameOfRef` takes a reference for a class object if its
object is in `nameByClass`, and for an instance otherwise. What it prints is
compared with a description of the class objects of the target.
-/

namespace JniProbe

open GoText GoFormat LatestWrite

/-- The class objects of the target: their names by address, and the class of
them all. They neither move nor die, so one description serves a whole run. -/
structure ClassHeap where
  name : UInt64 → Option Bytes
  metaclass : UInt64

/-- In this memory the reference `v` denotes the class object at `p`, named `n`. -/
structure ClassHeap.Denotes (heap : ClassHeap) (mem : UserMemory) (v p : UInt64) (n : Bytes) :
    Prop where
  resolved : resolveObj (some mem) v = p
  live : p ≠ 0
  named : heap.name p = some n
  header : ∀ cp, u32 mem p = some cp → cp.toUInt64 = heap.metaclass

/-- A successful `FindClass` returns the class whose name was passed. -/
def FindsNamed (heap : ClassHeap) (l : Lesson) : Prop :=
  slotName l.slot = str "FindClass" → l.rc ≠ 0 → ∀ mem ∈ l.mr, ∃ n,
    mem.HoldsString (l.a.get 1) n ∧
      heap.name (resolveObj (some mem) l.rc) = some (replaceByte n 47 46)

/-- A `FindClass` with a valid name returned the class object at `p`. -/
def Found (ls : List Lesson) (p : UInt64) : Prop :=
  ∃ l ∈ ls, slotName l.slot = str "FindClass" ∧ l.mr.isSome = true ∧ l.rc ≠ 0 ∧
    validName (cstr l.mr (l.a.get 1)) = true ∧ resolveObj l.mr l.rc = p

/-- An id lookup that stores the class it was asked about. -/
def LooksUp (l : Lesson) : Prop :=
  returnCase (slotName l.slot) = .getId ∧ l.mr.isSome = true ∧ l.rc ≠ 0

/-- The latest lookup that returned `id` was asked about the class reference `cl`. -/
def Owner (ls : List Lesson) (id cl : UInt64) : Prop :=
  ∃ before l after, ls = before ++ l :: after ∧ LooksUp l ∧ l.rc = id ∧ l.a.get 1 = cl ∧
    ∀ l' ∈ after, LooksUp l' → l'.rc ≠ id

def IsName (s : Bytes) : Prop := s ≠ str "null" ∧ hasPrefix s (str "0x") = false

theorem not_isName_hex (v : UInt64) : ¬ IsName (hex v) := by
  rintro ⟨-, hwithin⟩
  rw [hasPrefix_hex] at hwithin
  cases hwithin

section Lessons

variable {ls : List Lesson} {heap : ClassHeap} {p : UInt64}

/-! ### What the caches say about classes -/

theorem nameByClass_taught :
    (taught ls).nameByClass = latest (fun l : Lesson => classWrite l.mr l.frame l.rc) ls :=
  foldl_eq_latest _ teach Caches.nameByClass
    (fun cs l => learn_nameByClass l.mr l.frame l.rc cs) rfl ls

theorem idClass_taught :
    (taught ls).idClass = latest (fun l : Lesson => ownerWrite l.mr l.frame l.rc) ls :=
  foldl_eq_latest _ teach Caches.idClass
    (fun cs l => learn_idClass l.mr l.frame l.rc cs) rfl ls

/-- Every class name in the cache is right. -/
theorem nameByClass_sound (hfind : ∀ l ∈ ls, FindsNamed heap l) {n : Bytes}
    (h : (taught ls).nameByClass p = some n) : heap.name p = some n ∧ Found ls p := by
  rw [nameByClass_taught] at h
  obtain ⟨l, hl, hwrite⟩ := mem_of_latest h
  obtain ⟨hslot, hmr, hrc, hvalid, hobj, rfl⟩ := classWrite_eq_some _ _ _ hwrite
  refine ⟨?_, l, hl, hslot, hmr, hrc, hvalid, hobj⟩
  obtain ⟨mem, hmem⟩ := Option.isSome_iff_exists.mp hmr
  obtain ⟨n, hheld, hname⟩ := hfind l hl hslot hrc mem hmem
  rw [Lesson.frame_a1, hmem] at hvalid ⊢
  rw [hmem] at hobj
  rw [hobj] at hname
  rw [hname, cstr_of_validName hheld hvalid]

theorem nameByClass_ne_nil {n : Bytes} (h : (taught ls).nameByClass p = some n) : n ≠ [] := by
  rw [nameByClass_taught] at h
  obtain ⟨l, -, hwrite⟩ := mem_of_latest h
  obtain ⟨-, -, -, hvalid, -, rfl⟩ := classWrite_eq_some _ _ _ hwrite
  intro hnil
  have hempty : cstr l.mr l.frame.a1 = [] := by simpa [replaceByte] using hnil
  rw [hempty] at hvalid
  cases hvalid

theorem nameByClass_of_found (h : Found ls p) (hp : p ≠ 0) :
    ((taught ls).nameByClass p).isSome = true := by
  rw [nameByClass_taught, Option.isSome_iff_ne_none]
  intro hnone
  rw [latest_eq_none_iff] at hnone
  obtain ⟨l, hl, hslot, hmr, hrc, hvalid, hobj⟩ := h
  have hcase : returnCase (slotName l.slot) = .findClass := (returnCase_findClass _).mpr hslot
  refine hnone l hl (p, replaceByte (cstr l.mr (l.a.get 1)) 47 46) ?_ rfl
  simp only [classWrite, Lesson.frame, hmr, hrc, hcase, hvalid, hobj, hp, ne_eq, not_false_eq_true,
    decide_true, Bool.and_self, if_true, Option.mem_def]

theorem owner_of_idClass {id cl : UInt64} (h : (taught ls).idClass id = some cl) :
    Owner ls id cl := by
  have hwrites {l : Lesson} {q : UInt64 × UInt64} :
      ownerWrite l.mr l.frame l.rc = some q ↔ LooksUp l ∧ q = (l.rc, l.a.get 1) := by
    unfold ownerWrite
    split
    · rename_i hcond
      simp only [Bool.and_eq_true, decide_eq_true_eq] at hcond
      obtain ⟨⟨hmr, hrc⟩, hcase⟩ := hcond
      simp only [Option.some.injEq]
      exact ⟨fun h => ⟨⟨hcase, hmr, hrc⟩, h.symm⟩, fun h => h.2.symm⟩
    · rename_i hcond
      simp only [reduceCtorEq, false_iff, not_and]
      rintro ⟨hcase, hmr, hrc⟩
      simp [Lesson.frame, hcase, hmr, hrc] at hcond
  rw [idClass_taught] at h
  obtain ⟨before, l, after, rfl, hwrite, hafter⟩ := latest_eq_some_iff.mp h
  obtain ⟨hlook, hpair⟩ := hwrites.mp hwrite
  obtain ⟨rfl, rfl⟩ := Prod.mk.inj hpair
  refine ⟨before, l, after, rfl, hlook, rfl, rfl, ?_⟩
  intro l' hl' hlook'
  exact hafter l' hl' _ (hwrites.mpr ⟨hlook', rfl⟩)

/-! ### References to class objects -/

variable {mem : UserMemory} {v : UInt64} {n : Bytes}

/-- A class that was found is rendered by its name. -/
theorem ClassHeap.Denotes.found (hv : heap.Denotes mem v p n)
    (hfind : ∀ l ∈ ls, FindsNamed heap l) (h : Found ls p) :
    classNameOfRef (taught ls) (some mem) v = n := by
  have hne : v ≠ 0 := by
    rintro rfl
    exact hv.live hv.resolved.symm
  obtain ⟨n', hn'⟩ := Option.isSome_iff_exists.mp (nameByClass_of_found h hv.live)
  have hsame := (nameByClass_sound hfind hn').1.symm.trans hv.named
  simp only [classNameOfRef, hne, if_false, hv.resolved, hv.live, hn']
  exact Option.some.inj hsame

/-- A class that was not found is rendered in hex, unless the class of classes was. -/
theorem ClassHeap.Denotes.unknown (hv : heap.Denotes mem v p n)
    (hfind : ∀ l ∈ ls, FindsNamed heap l) (h : ¬ Found ls p) (hmeta : ¬ Found ls heap.metaclass) :
    classNameOfRef (taught ls) (some mem) v = hex p := by
  have hne : v ≠ 0 := by
    rintro rfl
    exact hv.live hv.resolved.symm
  have hnone {q : UInt64} (hq : ¬ Found ls q) : (taught ls).nameByClass q = none := by
    cases hname : (taught ls).nameByClass q with
    | none => rfl
    | some n' => exact absurd (nameByClass_sound hfind hname).2 hq
  simp only [classNameOfRef, hne, if_false, hv.resolved, hv.live, hnone h, Option.bind_some]
  cases hword : u32 mem p with
  | none => rfl
  | some cp => simp only [Option.bind_some, hv.header cp hword, hnone hmeta]

theorem ClassHeap.Denotes.sound (hv : heap.Denotes mem v p n)
    (hfind : ∀ l ∈ ls, FindsNamed heap l) (h : Found ls p ∨ ¬ Found ls heap.metaclass)
    (hname : IsName (classNameOfRef (taught ls) (some mem) v)) :
    classNameOfRef (taught ls) (some mem) v = n := by
  by_cases hfound : Found ls p
  · exact hv.found hfind hfound
  · rw [hv.unknown hfind hfound (h.resolve_left hfound)] at hname
    exact absurd hname (not_isName_hex p)

theorem ClassHeap.Denotes.text_ne_nil (hv : heap.Denotes mem v p n) :
    classNameOfRef (taught ls) (some mem) v ≠ [] := by
  have hne : v ≠ 0 := by
    rintro rfl
    exact hv.live hv.resolved.symm
  simp only [classNameOfRef, hne, if_false, hv.resolved, hv.live]
  cases hname : (taught ls).nameByClass p with
  | some n' => exact nameByClass_ne_nil hname
  | none =>
      dsimp only [Option.bind_some]
      cases hclass : (u32 mem p).bind (fun cp => (taught ls).nameByClass cp.toUInt64) with
      | none => exact hex_ne_nil p
      | some n' =>
          obtain ⟨cp, -, hcp⟩ := Option.bind_eq_some_iff.mp hclass
          exact nameByClass_ne_nil hcp

/-! ### The class part of a call -/

/-- Without a name of its own, the class argument is shown by the class
reference stored with the method id. -/
theorem describeClass_name {e : Evt} {id : UInt64} {c : Caches} {mr : Option UserMemory}
    (h : IsName (describeClass e id c mr)) :
    (IsName (classNameOfRef c mr (e.a.get 1)) ∧
      describeClass e id c mr = classNameOfRef c mr (e.a.get 1)) ∨
    classNameOfRef c mr (e.a.get 1) = [] ∨
    (¬ IsName (classNameOfRef c mr (e.a.get 1)) ∧ ∃ cl, c.idClass id = some cl ∧
      (classNameOfRef c mr cl = [] ∨ describeClass e id c mr = classNameOfRef c mr cl)) := by
  unfold describeClass at h ⊢
  dsimp only at h ⊢
  cases hhex : hasPrefix (classNameOfRef c mr (e.a.get 1)) (str "0x") with
  | false =>
      simp only [hhex, Bool.false_eq_true, if_false] at h ⊢
      by_cases hnil : classNameOfRef c mr (e.a.get 1) = []
      · exact Or.inr (Or.inl hnil)
      · rw [if_neg hnil] at h ⊢
        exact Or.inl ⟨h, rfl⟩
  | true =>
      simp only [hhex, if_true] at h ⊢
      cases howner : c.idClass id with
      | none =>
          simp only [howner] at h
          by_cases hnil : classNameOfRef c mr (e.a.get 1) = []
          · exact Or.inr (Or.inl hnil)
          · rw [if_neg hnil] at h
            exact absurd hhex (by simp [h.2])
      | some cl =>
          right
          right
          refine ⟨fun hown => absurd hhex (by simp [hown.2]), cl, rfl, ?_⟩
          by_cases hnil : classNameOfRef c mr cl = []
          · exact Or.inl hnil
          · simp only [hnil, if_false, or_true]

end Lessons

theorem fmtArg_jclass (c : Caches) (mr : Option UserMemory) (v : UInt64) :
    fmtArg c mr (str "jclass") v = classNameOfRef c mr v := by
  unfold fmtArg
  rw [if_neg (by decide), if_neg (by decide), if_pos (by decide)]

theorem fmtRet_jclass (c : Caches) (mr : Option UserMemory) (v : UInt64) :
    fmtRet c mr (str "jclass") v = classNameOfRef c mr v := by
  unfold fmtRet
  rw [if_neg (by decide), if_neg (by decide), if_pos (by decide)]

/-- Rendered classes are right, in every run whose returns are paired with
their own entries and whose `FindClass` calls return the classes they name.
Take a reference to a class object that was found, or to any class object as
long as the class of classes was not. Where an argument or return of type
`jclass` shows a name, it is the name of the class denoted. Where the class
argument of a call does, it is that name too, unless the reference has none of
its own: then it is the name of the class denoted by the reference stored with
the method id. -/
theorem rendered_class_names (S : Session) (att : Attachment) (acts : List Action)
    (heap : ClassHeap) (hpaired : PairsOwn S (Machine.run S att acts).ring)
    (hfind : ∀ l ∈ (Journal.run S att acts).lessons, FindsNamed heap l) (mem : UserMemory)
    (v p : UInt64) (n : Bytes) (hv : heap.Denotes mem v p n)
    (hmeta : Found (Journal.run S att acts).lessons p ∨
      ¬ Found (Journal.run S att acts).lessons heap.metaclass) :
    ∃ cs, cs = (Tracker.after S (Machine.run S att acts).ring).caches ∧
      (IsName (fmtArg cs (some mem) (str "jclass") v) →
        fmtArg cs (some mem) (str "jclass") v = n) ∧
      (IsName (fmtRet cs (some mem) (str "jclass") v) →
        fmtRet cs (some mem) (str "jclass") v = n) ∧
      ∀ e nm ix, isCallMethod nm = some ix → e.a.get 1 = v →
        (describeCall e nm cs (some mem)).2 = true →
        (∃ rest, (describeCall e nm cs (some mem)).1 =
          describeClass e (e.a.get ix) cs (some mem) ++ str "." ++ rest) ∧
        (IsName (describeClass e (e.a.get ix) cs (some mem)) →
          (IsName (fmtArg cs (some mem) (str "jclass") v) →
            describeClass e (e.a.get ix) cs (some mem) = n) ∧
          (¬ IsName (fmtArg cs (some mem) (str "jclass") v) →
            ∃ cl, Owner (Journal.run S att acts).lessons (e.a.get ix) cl ∧
              ∀ q n', heap.Denotes mem cl q n' →
                (Found (Journal.run S att acts).lessons q ∨
                  ¬ Found (Journal.run S att acts).lessons heap.metaclass) →
                describeClass e (e.a.get ix) cs (some mem) = n')) := by
  refine ⟨_, rfl, ?_⟩
  rw [hpaired.caches_taught]
  generalize (Journal.run S att acts).lessons = ls at hfind hmeta
  simp only [fmtArg_jclass, fmtRet_jclass]
  refine ⟨hv.sound hfind hmeta, hv.sound hfind hmeta, ?_⟩
  intro e nm ix hix hreg hknown
  constructor
  · rw [describeCall_known _ _ hix, Option.isSome_iff_exists] at hknown
    obtain ⟨full, hfull⟩ := hknown
    unfold describeCall
    rw [hix]
    dsimp only
    rw [hfull]
    dsimp only
    refine ⟨(splitNameSig full).1 ++ (str "(" ++ (join (decodeArgs e nm
      (parseParams (splitNameSig full).2) (taught ls) (some mem)) (str ", ") ++ str ")")), ?_⟩
    simp only [List.append_assoc]
  · intro hname
    rcases describeClass_name hname with ⟨hown, heq⟩ | hnil | ⟨hnot, cl, howner, hshown⟩
    · rw [hreg] at hown heq
      rw [heq]
      exact ⟨fun _ => hv.sound hfind hmeta hown, fun hnot => absurd hown hnot⟩
    · rw [hreg] at hnil
      exact absurd hnil hv.text_ne_nil
    · rw [hreg] at hnot
      refine ⟨fun hown => absurd hown hnot, fun _ => ⟨cl, owner_of_idClass howner, ?_⟩⟩
      intro q n' hq hqmeta
      have heq := hshown.resolve_left hq.text_ne_nil
      rw [heq] at hname ⊢
      exact hq.sound hfind hqmeta hname

/-! ### The conditions are needed -/

namespace Scenario

/-- References at `0x100000`, `0x100010` and `0x100020` to the class objects of
`java.lang.Class`, `A` and `B`, and texts from `0x1000` on. -/
def classMemory : UserMemory := textMemory
  [(0x1000, str "java/lang/Class"), (0x1100, str "A"), (0x1200, str "B"), (0x1300, str "m"),
    (0x1400, str "()V"), (0x100000, [0, 0, 0x20, 0]), (0x100010, [0, 1, 0x20, 0]),
    (0x100020, [0, 2, 0x20, 0]), (0x200000, [0, 0, 0x20, 0]), (0x200100, [0, 0, 0x20, 0]),
    (0x200200, [0, 0, 0x20, 0])]

def classHeap : ClassHeap where
  name p :=
    if p = 0x200000 then some (str "java.lang.Class")
    else if p = 0x200100 then some (str "A")
    else if p = 0x200200 then some (str "B")
    else none
  metaclass := 0x200000

/-- A `FindClass` of the name at `text` that returns `rc`. -/
def findHit (text rc : UInt64) : Hit := hit #v[rc, text, 0, 0, 0] (some classMemory)

/-- `FindClass`, `GetStaticMethodID` and `CallStaticVoidMethod` at offsets 0, 1 and 2. -/
def classSession : Session := session (table [6, 113, 141])

def findRun (text rc : UInt64) : List Action :=
  [.enter 1 0 (findHit text rc), .leave 1 (findHit text rc)]

/-- `B` is found and asked for its method `m`, which gets the id `0x5000`. -/
def ownerRun : List Action :=
  findRun 0x1200 0x100020 ++
    [.enter 1 1 (hit #v[0x5000, 0x100020, 0x1300, 0x1400, 0] (some classMemory)),
      .leave 1 (hit #v[0x5000, 0x100020, 0x1300, 0x1400, 0] (some classMemory))]

/-- Inside a `FindClass` of `A`, one of `B` whose entry finds the ring full. -/
def lostFindRun : List Action :=
  [.enter 1 0 (findHit 0x1100 0x100010),
    .enter 1 0 { findHit 0x1200 0x100020 with reserved := none },
    .leave 1 (findHit 0x1200 0x100020), .leave 1 (findHit 0x1100 0x100010)]

theorem denotes_A : classHeap.Denotes classMemory 0x100010 0x200100 (str "A") where
  resolved := by decide +kernel
  live := by decide
  named := by decide +kernel
  header := by
    intro cp hcp
    have hword : u32 classMemory 0x200100 = some 0x200000 := by decide +kernel
    obtain rfl := Option.some.inj (hword.symm.trans hcp)
    rfl

theorem denotes_B : classHeap.Denotes classMemory 0x100020 0x200200 (str "B") where
  resolved := by decide +kernel
  live := by decide
  named := by decide +kernel
  header := by
    intro cp hcp
    have hword : u32 classMemory 0x200200 = some 0x200000 := by decide +kernel
    obtain rfl := Option.some.inj (hword.symm.trans hcp)
    rfl

/-- A lesson whose text is the name of the class it returns. -/
theorem findsNamed_of_text {l : Lesson} {s : Bytes} (hmr : l.mr = some classMemory)
    (hheld : classMemory.HoldsString (l.a.get 1) s)
    (hname : classHeap.name (resolveObj (some classMemory) l.rc) = some (replaceByte s 47 46)) :
    FindsNamed classHeap l := by
  intro _ _ mem hmem
  rw [hmr] at hmem
  obtain rfl : classMemory = mem := Option.some.inj hmem
  exact ⟨s, hheld, hname⟩

theorem holdsString_class : classMemory.HoldsString 0x1000 (str "java/lang/Class") :=
  ⟨by decide, by decide, by decide +kernel, by decide +kernel⟩

theorem holdsString_A : classMemory.HoldsString 0x1100 (str "A") :=
  ⟨by decide, by decide, by decide +kernel, by decide +kernel⟩

theorem holdsString_B : classMemory.HoldsString 0x1200 (str "B") :=
  ⟨by decide, by decide, by decide +kernel, by decide +kernel⟩

/-- The lesson of a `FindClass` call in this memory. -/
def foundLesson (text rc : UInt64) : Lesson := ⟨6, #v[rc, text, 0, 0, 0], rc, some classMemory⟩

theorem findsNamed_class : FindsNamed classHeap (foundLesson 0x1000 0x100000) :=
  findsNamed_of_text rfl holdsString_class (by decide +kernel)

theorem findsNamed_A : FindsNamed classHeap (foundLesson 0x1100 0x100010) :=
  findsNamed_of_text rfl holdsString_A (by decide +kernel)

theorem findsNamed_B : FindsNamed classHeap (foundLesson 0x1200 0x100020) :=
  findsNamed_of_text rfl holdsString_B (by decide +kernel)

theorem monitored_classSession (acts : List Action) (hlen : acts.length ≤ 4096)
    (hres : ∀ a ∈ acts, a.hit.reserved.isSome = true) : Monitored classSession acts :=
  Monitored.of_short (by decide +kernel) hlen hres

theorem lessons_findRun (text rc : UInt64) :
    (Journal.run classSession .all (findRun text rc)).lessons = [foundLesson text rc] := rfl

end Scenario

open Scenario in
/-- After `B` was found, its reference is shown by the name `B`. -/
theorem rendered_class_names_found :
    fmtArg (Tracker.after classSession (Machine.run classSession .all
      (findRun 0x1200 0x100020)).ring).caches (some classMemory) (str "jclass") 0x100020 =
        str "B" := by
  have hmonitored : Monitored classSession (findRun 0x1200 0x100020) :=
    monitored_classSession _ (by decide) (by simp [findRun, Action.hit, findHit, hit])
  have hlessons := lessons_findRun 0x1200 0x100020
  have hfind : ∀ l ∈ (Journal.run classSession .all (findRun 0x1200 0x100020)).lessons,
      FindsNamed classHeap l := by
    rw [hlessons]
    simpa using findsNamed_B
  have hfound : Found (Journal.run classSession .all (findRun 0x1200 0x100020)).lessons
      0x200200 := by
    rw [hlessons]
    exact ⟨_, List.mem_singleton.mpr rfl, by decide, rfl, by decide, by decide +kernel,
      by decide +kernel⟩
  obtain ⟨cs, rfl, harg, -⟩ := rendered_class_names classSession .all (findRun 0x1200 0x100020)
    classHeap hmonitored.pairsOwn hfind classMemory 0x100020 0x200200 (str "B") denotes_B
    (Or.inl hfound)
  exact harg ⟨by decide +kernel, by decide +kernel⟩

open Scenario in
/-- Each restriction is needed. Once the class of classes was found, a class
that was not is shown as `java.lang.Class`; a call on `A` through a method id
of `B` is shown as a call on `B` while `A` was not found; and a `FindClass`
whose entry record is lost gives its class the name of the one around it. -/
theorem rendered_class_names_fail :
    (Monitored classSession (findRun 0x1000 0x100000) ∧
      (∀ l ∈ (Journal.run classSession .all (findRun 0x1000 0x100000)).lessons,
        FindsNamed classHeap l) ∧
      classHeap.Denotes classMemory 0x100010 0x200100 (str "A") ∧
      fmtArg (Tracker.after classSession (Machine.run classSession .all
        (findRun 0x1000 0x100000)).ring).caches (some classMemory) (str "jclass") 0x100010 =
          str "java.lang.Class") ∧
    (Monitored classSession ownerRun ∧
      (∀ l ∈ (Journal.run classSession .all ownerRun).lessons, FindsNamed classHeap l) ∧
      classHeap.Denotes classMemory 0x100010 0x200100 (str "A") ∧
      describedAfter classSession .all ownerRun 1 2
        (hit #v[0, 0x100010, 0x5000, 0, 0] (some classMemory)) blank 141 =
          (str "B.m()", true)) ∧
    ((∀ l ∈ (Journal.run classSession .all lostFindRun).lessons, FindsNamed classHeap l) ∧
      classHeap.Denotes classMemory 0x100020 0x200200 (str "B") ∧
      fmtArg (Tracker.after classSession (Machine.run classSession .all lostFindRun).ring).caches
        (some classMemory) (str "jclass") 0x100020 = str "A") := by
  have howner : (Journal.run classSession .all ownerRun).lessons =
      [foundLesson 0x1200 0x100020,
        ⟨113, #v[0x5000, 0x100020, 0x1300, 0x1400, 0], 0x5000, some classMemory⟩] := rfl
  have hlost : (Journal.run classSession .all lostFindRun).lessons =
      [foundLesson 0x1200 0x100020, foundLesson 0x1100 0x100010] := rfl
  have hother : FindsNamed classHeap
      ⟨113, #v[0x5000, 0x100020, 0x1300, 0x1400, 0], 0x5000, some classMemory⟩ := by
    intro hslot
    exact absurd hslot (by decide)
  refine ⟨⟨?_, ?_, denotes_A, by decide +kernel⟩, ⟨?_, ?_, denotes_A, by decide +kernel⟩,
    ?_, denotes_B, by decide +kernel⟩
  · exact monitored_classSession _ (by decide) (by simp [findRun, Action.hit, findHit, hit])
  · rw [lessons_findRun]
    simpa using findsNamed_class
  · exact monitored_classSession _ (by decide)
      (by simp [ownerRun, findRun, Action.hit, findHit, hit])
  · rw [howner]
    simpa using ⟨findsNamed_B, hother⟩
  · rw [hlost]
    simpa using ⟨findsNamed_B, findsNamed_A⟩

end JniProbe
