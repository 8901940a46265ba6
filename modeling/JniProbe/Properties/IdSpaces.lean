import JniProbe.Properties.MethodNames
import JniProbe.System.Teaching

/-!
Method ids and field ids. A run in which some lookups of one kind are marked
is compared with the run without them. The two kinds of id share the maps
`idName` and `idClass`, so the marked lookups are noticed at the ids they
return, and nowhere else.
-/

namespace JniProbe

open GoText

/-! ### A run and the run without its marked calls -/

def unmarked (acts : List (Bool × Action)) : List Action :=
  (acts.filter (fun p => !p.1)).map (·.2)

theorem unmarked_concat (acts : List (Bool × Action)) (p : Bool × Action) :
    unmarked (acts ++ [p]) = unmarked acts ++ if p.1 then [] else [p.2] := by
  obtain ⟨b, a⟩ := p
  cases b <;> simp [unmarked]

/-- The marks of the open calls of each thread. -/
abbrev Marks := UInt32 → List Bool

def markStep (ms : Marks) : Bool × Action → Marks
  | (b, .enter tid _ _) => Function.update ms tid (b :: ms tid)
  | (_, .leave tid _) => Function.update ms tid (ms tid).tail

/-- Only calls of functions in `P` are marked, at the entry and at the return. -/
def MarkOk (S : Session) (P : Bytes → Bool) (ms : Marks) : Bool × Action → Prop
  | (b, .enter _ off _) => b = true → (S.slotAt off).any (fun slot => P (slotName slot)) = true
  | (b, .leave tid _) => ∀ entered ∈ (ms tid).head?, b = entered

instance (S : Session) (P : Bytes → Bool) (ms : Marks) : ∀ p, Decidable (MarkOk S P ms p)
  | (b, .enter _ off _) => inferInstanceAs (Decidable (b = true →
      (S.slotAt off).any (fun slot => P (slotName slot)) = true))
  | (b, .leave tid _) => inferInstanceAs (Decidable (∀ entered ∈ (ms tid).head?, b = entered))

def MarksCalls (S : Session) (P : Bytes → Bool) (acts : List (Bool × Action)) : Prop :=
  Runs.Along markStep (MarkOk S P) (fun _ => []) acts

/-- The second list of open calls is the first without the marked ones. -/
inductive Hidden (S : Session) (P : Bytes → Bool) :
    List Bool → List (UInt64 × Hit) → List (UInt64 × Hit) → Prop where
  | nil : Hidden S P [] [] []
  | hide {ms os os'} (off : UInt64) (hit : Hit)
      (hname : (S.slotAt off).any (fun slot => P (slotName slot)) = true)
      (rest : Hidden S P ms os os') : Hidden S P (true :: ms) ((off, hit) :: os) os'
  | keep {ms os os'} (off : UInt64) (hit : Hit) (rest : Hidden S P ms os os') :
      Hidden S P (false :: ms) ((off, hit) :: os) ((off, hit) :: os')

/-- The journals of the two runs: the same open calls but for the marked ones,
and caches that agree at `id`. -/
structure Apart (S : Session) (P : Bytes → Bool) (id : UInt64) (ms : Marks) (j j' : Journal) :
    Prop where
  calls : ∀ t, Hidden S P (ms t) (j.calls t) (j'.calls t)
  caches : AgreeAt id (taught j.lessons) (taught j'.lessons)

/-- The rest of the marked run keeps the two apart. -/
def Journal.skip (S : Session) (att : Attachment) (j : Journal) (p : Bool × Action) : Journal :=
  if p.1 then j else j.step S att p.2

section Apart

variable {S : Session} {att : Attachment} {P : Bytes → Bool} {id : UInt64} {ms : Marks}
  {j j' : Journal}

theorem Apart.enter (h : Apart S P id ms j j') {b : Bool} {tid : UInt32} {off : UInt64} {hit : Hit}
    (hok : MarkOk S P ms (b, .enter tid off hit)) :
    Apart S P id (markStep ms (b, .enter tid off hit)) (j.step S att (.enter tid off hit))
      (j'.skip S att (b, .enter tid off hit)) := by
  cases b with
  | true =>
      refine ⟨?_, h.caches⟩
      intro t
      simp only [markStep, Journal.step, Journal.skip, if_true]
      by_cases ht : t = tid
      · subst ht
        rw [Function.update_self, Function.update_self]
        exact (h.calls t).hide off hit (hok rfl)
      · rw [Function.update_of_ne ht, Function.update_of_ne ht]
        exact h.calls t
  | false =>
      refine ⟨?_, h.caches⟩
      intro t
      simp only [markStep, Journal.step, Journal.skip, Bool.false_eq_true, if_false]
      by_cases ht : t = tid
      · subst ht
        simp only [Function.update_self]
        exact (h.calls t).keep off hit
      · simp only [Function.update_of_ne ht]
        exact h.calls t

/-- A lesson of a marked call is about another id. -/
theorem AgreeAt.teach_marked {c c' : Caches} (h : AgreeAt id c c')
    (hP : ∀ nm, P nm = true → returnCase nm = .getId) {l : Lesson}
    (hname : P (slotName l.slot) = true) (hid : l.rc ≠ id) : AgreeAt id (teach c l) c' :=
  h.learn_lookup l.mr l.frame (hP _ hname) hid

theorem Apart.leave (h : Apart S P id ms j j') (hP : ∀ nm, P nm = true → returnCase nm = .getId)
    {b : Bool} {tid : UInt32} {hit : Hit} (hok : MarkOk S P ms (b, .leave tid hit))
    (hid : b = true → hit.ctx.parm.get 0 ≠ id) :
    Apart S P id (markStep ms (b, .leave tid hit)) (j.step S att (.leave tid hit))
      (j'.skip S att (b, .leave tid hit)) := by
  have hhere := h.calls tid
  generalize hms : ms tid = marks at hhere
  generalize hj : j.calls tid = os at hhere
  generalize hj' : j'.calls tid = os' at hhere
  cases hhere with
  | nil =>
      have hnone : j'.skip S att (b, .leave tid hit) = j' := by
        cases b <;> simp [Journal.skip, Journal.step, hj']
      rw [hnone]
      refine ⟨?_, by simpa only [Journal.step, hj] using h.caches⟩
      intro t
      simp only [markStep, Journal.step, hj, hms, List.tail_nil]
      rw [Function.update_eq_self_iff.mpr hms.symm]
      exact h.calls t
  | @hide marks os os' off entry hname rest =>
      obtain rfl : b = true := hok true (by simp [hms])
      simp only [markStep, Journal.step, Journal.skip, hms, hj, List.tail_cons, if_true]
      refine ⟨?_, ?_⟩
      · intro t
        dsimp only
        by_cases ht : t = tid
        · subst ht
          rw [Function.update_self, Function.update_self, hj']
          exact rest
        · rw [Function.update_of_ne ht, Function.update_of_ne ht]
          exact h.calls t
      · dsimp only
        cases hlesson : Journal.lesson S att tid off entry hit with
        | none => simpa using h.caches
        | some l =>
            rw [Option.toList_some, taught_concat]
            obtain ⟨slot, hslot, rfl⟩ := Journal.lesson_some hlesson
            rw [hslot, Option.any_some] at hname
            exact h.caches.teach_marked hP hname (hid rfl)
  | @keep marks os os' off entry rest =>
      obtain rfl : b = false := hok false (by simp [hms])
      simp only [markStep, Journal.step, Journal.skip, hms, hj, hj', List.tail_cons,
        Bool.false_eq_true, if_false]
      refine ⟨?_, ?_⟩
      · intro t
        dsimp only
        by_cases ht : t = tid
        · subst ht
          simp only [Function.update_self]
          exact rest
        · simp only [Function.update_of_ne ht]
          exact h.calls t
      · dsimp only
        cases hlesson : Journal.lesson S att tid off entry hit with
        | none => simpa using h.caches
        | some l =>
            simp only [Option.toList_some, taught_concat]
            exact h.caches.learn l.mr l.frame l.rc

variable (att) in
/-- Marked lookups of other ids keep the two runs apart. -/
theorem apart_run (hP : ∀ nm, P nm = true → returnCase nm = .getId) (acts : List (Bool × Action))
    (hmarks : MarksCalls S P acts)
    (hid : ∀ tid hit, (true, .leave tid hit) ∈ acts → hit.ctx.parm.get 0 ≠ id) :
    Apart S P id (Runs.run markStep (fun _ => []) acts) (Journal.run S att (acts.map (·.2)))
      (Journal.run S att (unmarked acts)) := by
  induction acts using List.reverseRecOn with
  | nil => exact ⟨fun _ => .nil, AgreeAt.refl _ _⟩
  | append_singleton acts p ih =>
      obtain ⟨hbefore, hok⟩ := (Runs.along_concat _ _ _ _ _).mp hmarks
      have hold := ih hbefore (fun tid hit hmem => hid tid hit (by simp [hmem]))
      have hskip : Journal.run S att (unmarked (acts ++ [p])) =
          (Journal.run S att (unmarked acts)).skip S att p := by
        rw [unmarked_concat]
        cases hmark : p.1 with
        | true => simp [Journal.skip, hmark]
        | false => simp [Journal.skip, hmark, Journal.run_concat]
      rw [List.map_append, List.map_singleton, Journal.run_concat, Runs.run_concat, hskip]
      obtain ⟨b, a⟩ := p
      cases a with
      | enter tid off hit => exact hold.enter hok
      | leave tid hit =>
          apply hold.leave hP hok
          rintro rfl
          exact hid tid hit (by simp)

end Apart

/-! ### Descriptions in the two runs -/

/-- What `describeCall` makes of an entry record that follows a run. -/
def describedAfter (S : Session) (att : Attachment) (acts : List Action) (tid : UInt32)
    (off : UInt64) (hit : Hit) (raw : Evt) (slot : Nat) : Bytes × Bool :=
  describeCall (Machine.enterRecord S (Machine.run S att acts) tid off hit raw).evt
    (slotName slot) (Tracker.after S (Machine.run S att acts).ring).caches hit.env.mr

theorem fmtArg_jfieldID (c : Caches) (mr : Option UserMemory) (v : UInt64) :
    fmtArg c mr (str "jfieldID") v = fmtId c v := by
  unfold fmtArg
  rw [if_neg (by decide), if_neg (by decide), if_neg (by decide), if_pos (by decide)]

theorem fmtRet_jfieldID (c : Caches) (mr : Option UserMemory) (v : UInt64) :
    fmtRet c mr (str "jfieldID") v = fmtId c v := by
  unfold fmtRet
  rw [if_neg (by decide), if_neg (by decide), if_neg (by decide), if_neg (by decide),
    if_pos (by decide)]

/-- Lookups of one kind do not show in what the other kind of id means. With
marked field lookups, calls through an id that no marked lookup returned are
described as without them; with marked method lookups, the same holds of how
a field id is printed. -/
theorem id_kinds_independent (S : Session) (att : Attachment) (acts : List (Bool × Action))
    (id : UInt64) (hpaired : PairsOwn S (Machine.run S att (acts.map (·.2))).ring)
    (hpaired' : PairsOwn S (Machine.run S att (unmarked acts)).ring)
    (hid : ∀ tid hit, (true, .leave tid hit) ∈ acts → hit.ctx.parm.get 0 ≠ id) :
    (MarksCalls S isFieldLookup acts → ∀ tid off hit raw slot ix,
      isCallMethod (slotName slot) = some ix → hit.ctx.parm.get ix = id →
        describedAfter S att (acts.map (·.2)) tid off hit raw slot =
          describedAfter S att (unmarked acts) tid off hit raw slot) ∧
    (MarksCalls S isMethodLookup acts → ∀ mr,
      fmtArg (Tracker.after S (Machine.run S att (acts.map (·.2))).ring).caches mr
          (str "jfieldID") id =
        fmtArg (Tracker.after S (Machine.run S att (unmarked acts)).ring).caches mr
          (str "jfieldID") id ∧
      fmtRet (Tracker.after S (Machine.run S att (acts.map (·.2))).ring).caches mr
          (str "jfieldID") id =
        fmtRet (Tracker.after S (Machine.run S att (unmarked acts)).ring).caches mr
          (str "jfieldID") id) := by
  have hfield (nm : Bytes) (h : isFieldLookup nm = true) : returnCase nm = .getId :=
    (returnCase_getId nm).mpr (Or.inr h)
  have hmethod (nm : Bytes) (h : isMethodLookup nm = true) : returnCase nm = .getId :=
    (returnCase_getId nm).mpr (Or.inl h)
  constructor
  · intro hmarks tid off hit raw slot ix hix hmid
    have hagree := (apart_run att hfield acts hmarks hid).caches
    rw [← hpaired.caches_taught, ← hpaired'.caches_taught] at hagree
    unfold describedAfter
    generalize Tracker.after S (Machine.run S att (acts.map (·.2))).ring = full at hagree
    generalize Tracker.after S (Machine.run S att (unmarked acts)).ring = plain at hagree
    generalize (Machine.run S att (acts.map (·.2))) = m
    generalize (Machine.run S att (unmarked acts)) = m'
    have hreg : (Machine.enterRecord S m tid off hit raw).evt.a.get ix = id := by
      simp [Machine.entryCtx, hmid]
    calc describeCall (Machine.enterRecord S m tid off hit raw).evt (slotName slot) full.caches
          hit.env.mr
        = describeCall (Machine.enterRecord S m tid off hit raw).evt (slotName slot) plain.caches
            hit.env.mr := hagree.describeCall _ hix hreg
      _ = describeCall ((Machine.enterRecord S m tid off hit raw).evt.withDepth 0) (slotName slot)
            plain.caches hit.env.mr := (describeCall_withDepth _ _ _ _ _).symm
      _ = describeCall ((Machine.enterRecord S m' tid off hit raw).evt.withDepth 0) (slotName slot)
            plain.caches hit.env.mr := by rw [entryEvt_withDepth]
      _ = describeCall (Machine.enterRecord S m' tid off hit raw).evt (slotName slot) plain.caches
            hit.env.mr := describeCall_withDepth _ _ _ _ _
  · intro hmarks mr
    have hagree := (apart_run att hmethod acts hmarks hid).caches
    rw [← hpaired.caches_taught, ← hpaired'.caches_taught] at hagree
    simp only [fmtArg_jfieldID, fmtRet_jfieldID, hagree.fmtId, and_self]

/-! ### The conditions are needed -/

namespace Scenario

/-- A hit that fits a lookup of this name and signature and its return. -/
def lookupOf (name sig : Bytes) (rc : UInt64) : Hit :=
  hit #v[rc, 0x3000, 0x1000, 0x2000, 0] (some (textMemory [(0x1000, name), (0x2000, sig)]))

/-- A call of the function at `off` with nothing nested in it. -/
def callAt (mark : Bool) (off : UInt64) (hit : Hit) : List (Bool × Action) :=
  [(mark, .enter 1 off hit), (mark, .leave 1 hit)]

/-- A lookup of the method `f`, then a marked lookup of the field `g`. -/
def fieldAfterMethod (rc rc' : UInt64) : List (Bool × Action) :=
  callAt false 0 (lookupOf (str "f") (str "()V") rc) ++
    callAt true 1 (lookupOf (str "g") (str "I") rc')

/-- A lookup of the field `g`, then a marked lookup of the method `f`. -/
def methodAfterField (rc rc' : UInt64) : List (Bool × Action) :=
  callAt false 1 (lookupOf (str "g") (str "I") rc) ++
    callAt true 0 (lookupOf (str "f") (str "()V") rc')

/-- Inside a lookup of `f`, a marked field lookup whose entry finds the ring full. -/
def lostFieldEntry : List (Bool × Action) :=
  [(false, .enter 1 0 (lookupOf (str "f") (str "()V") 0x1000)),
    (true, .enter 1 1 { lookupOf (str "g") (str "I") 0x5000 with reserved := none }),
    (true, .leave 1 (lookupOf (str "g") (str "I") 0x5000)),
    (false, .leave 1 (lookupOf (str "f") (str "()V") 0x1000))]

/-- A call through the id `0x1000`. -/
def callHit : Hit := hit #v[0, 0x3000, 0x1000, 0, 0] none

theorem monitored_callAt (mark mark' : Bool) (off off' : UInt64) (hit hit' : Hit)
    (h : hit.reserved.isSome = true) (h' : hit'.reserved.isSome = true) :
    Monitored lookupSession ((callAt mark off hit ++ callAt mark' off' hit').map (·.2)) := by
  apply Monitored.of_short
  · decide +kernel
  · simp [callAt]
  · simp [callAt, Action.hit, h, h']

theorem monitored_unmarked (off off' : UInt64) (hit hit' : Hit)
    (h : hit.reserved.isSome = true) :
    Monitored lookupSession (unmarked (callAt false off hit ++ callAt true off' hit')) := by
  apply Monitored.of_short
  · decide +kernel
  · simp [unmarked, callAt]
  · simp [unmarked, callAt, Action.hit, h]

end Scenario

open Scenario in
/-- A marked lookup of the field id `0x5000` after a lookup of the method id `0x1000`. -/
theorem id_kinds_independent_lookups :
    describedAfter lookupSession .all ((fieldAfterMethod 0x1000 0x5000).map (·.2)) 1 2 callHit
        blank 61 =
      describedAfter lookupSession .all (unmarked (fieldAfterMethod 0x1000 0x5000)) 1 2 callHit
        blank 61 := by
  have hmarks : MarksCalls lookupSession isFieldLookup (fieldAfterMethod 0x1000 0x5000) := by
    unfold MarksCalls
    decide +kernel
  have hother : ∀ tid hit, (true, .leave tid hit) ∈ fieldAfterMethod 0x1000 0x5000 →
      hit.ctx.parm.get 0 ≠ 0x1000 := by
    simp [fieldAfterMethod, callAt, lookupOf, Scenario.hit, registers, Vector.get]
  exact (id_kinds_independent lookupSession .all (fieldAfterMethod 0x1000 0x5000) 0x1000
    (monitored_callAt _ _ _ _ _ _ rfl rfl).pairsOwn (monitored_unmarked _ _ _ _ rfl).pairsOwn
    hother).1 hmarks 1 2 callHit blank 61 2 (by decide) rfl

open Scenario in
/-- A marked lookup that returns the id in question changes what the other
kind of id means, in both directions; and a marked lookup whose entry record
is lost takes the frame of the lookup around it, whatever id it returns. -/
theorem id_kinds_interfere :
    (MarksCalls lookupSession isFieldLookup (fieldAfterMethod 0x1000 0x1000) ∧
      Monitored lookupSession ((fieldAfterMethod 0x1000 0x1000).map (·.2)) ∧
      describedAfter lookupSession .all ((fieldAfterMethod 0x1000 0x1000).map (·.2)) 1 2 callHit
          blank 61 = (str "0x3000.gI()", true) ∧
      describedAfter lookupSession .all (unmarked (fieldAfterMethod 0x1000 0x1000)) 1 2 callHit
          blank 61 = (str "0x3000.f()", true)) ∧
    (MarksCalls lookupSession isMethodLookup (methodAfterField 0x1000 0x1000) ∧
      Monitored lookupSession ((methodAfterField 0x1000 0x1000).map (·.2)) ∧
      fmtArg (Tracker.after lookupSession (Machine.run lookupSession .all
          ((methodAfterField 0x1000 0x1000).map (·.2))).ring).caches none (str "jfieldID") 0x1000 =
        str "f()V" ∧
      fmtArg (Tracker.after lookupSession (Machine.run lookupSession .all
          (unmarked (methodAfterField 0x1000 0x1000))).ring).caches none (str "jfieldID") 0x1000 =
        str "gI") ∧
    (MarksCalls lookupSession isFieldLookup lostFieldEntry ∧
      (∀ tid hit, (true, .leave tid hit) ∈ lostFieldEntry → hit.ctx.parm.get 0 ≠ 0x1000) ∧
      (describedAfter lookupSession .all (lostFieldEntry.map (·.2)) 1 2 callHit blank 61).2 =
        false ∧
      (describedAfter lookupSession .all (unmarked lostFieldEntry) 1 2 callHit blank 61).2 =
        true) := by
  unfold MarksCalls
  refine ⟨⟨by decide +kernel, monitored_callAt _ _ _ _ _ _ rfl rfl, by decide +kernel,
      by decide +kernel⟩,
    ⟨by decide +kernel, monitored_callAt _ _ _ _ _ _ rfl rfl, by decide +kernel,
      by decide +kernel⟩,
    by decide +kernel, ?_, by decide +kernel, by decide +kernel⟩
  simp [lostFieldEntry, lookupOf, Scenario.hit, registers, Vector.get]

end JniProbe
