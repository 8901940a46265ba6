import JniProbe.System.Teaching

/-!
One target run seen by two sessions. The target does the same under both, so
the threads, the functions, the registers and the memory agree action by
action, while the ring memory, the module map and the filters need not. What
the calls teach is then the same, whichever slots a session tracks besides
those that feed the caches.
-/

namespace JniProbe

open GoText

/-- Two hits at one moment of the target, both of them recorded. -/
structure Hit.SameTarget (hit hit' : Hit) : Prop where
  ctx : hit.ctx = hit'.ctx
  mr : hit.env.mr = hit'.env.mr
  recorded : hit.reserved.isSome = true
  recorded' : hit'.reserved.isSome = true

def Action.SameTarget : Action → Action → Prop
  | .enter tid off hit, .enter tid' off' hit' => tid = tid' ∧ off = off' ∧ hit.SameTarget hit'
  | .leave tid hit, .leave tid' hit' => tid = tid' ∧ hit.SameTarget hit'
  | _, _ => False

/-- Two hits of which the same is learned, both of them recorded. -/
structure Hit.SameWords (hit hit' : Hit) : Prop where
  parm : hit.ctx.parm = hit'.ctx.parm
  mr : hit.env.mr = hit'.env.mr
  recorded : hit.reserved.isSome = true
  recorded' : hit'.reserved.isSome = true

/-- Two hits at one moment of the target, read at different times by sessions
that see the same module map, both of them recorded. -/
structure Hit.SameMoment (hit hit' : Hit) : Prop where
  ctx : hit.ctx = { hit'.ctx with ts := hit.ctx.ts }
  mr : hit.env.mr = hit'.env.mr
  moduleOf : hit.env.moduleOf = hit'.env.moduleOf
  recorded : hit.reserved.isSome = true
  recorded' : hit'.reserved.isSome = true

/-- The same function entered or left by the same thread, with related hits. -/
def Action.Alike (R : Hit → Hit → Prop) : Action → Action → Prop
  | .enter tid off hit, .enter tid' off' hit' => tid = tid' ∧ off = off' ∧ R hit hit'
  | .leave tid hit, .leave tid' hit' => tid = tid' ∧ R hit hit'
  | _, _ => False

theorem Action.Alike.imp {R R' : Hit → Hit → Prop} (h : ∀ hit hit', R hit hit' → R' hit hit')
    {a a' : Action} (ha : a.Alike R a') : a.Alike R' a' := by
  cases a with
  | enter tid off hit =>
      cases a' with
      | leave tid' hit' => exact ha.elim
      | enter tid' off' hit' => exact ⟨ha.1, ha.2.1, h _ _ ha.2.2⟩
  | leave tid hit =>
      cases a' with
      | enter tid' off' hit' => exact ha.elim
      | leave tid' hit' => exact ⟨ha.1, h _ _ ha.2⟩

theorem Hit.SameTarget.sameWords {hit hit' : Hit} (h : hit.SameTarget hit') :
    hit.SameWords hit' where
  parm := by rw [h.ctx]
  mr := h.mr
  recorded := h.recorded
  recorded' := h.recorded'

theorem Hit.SameMoment.sameWords {hit hit' : Hit} (h : hit.SameMoment hit') :
    hit.SameWords hit' where
  parm := by rw [h.ctx]
  mr := h.mr
  recorded := h.recorded
  recorded' := h.recorded'

theorem Action.SameTarget.alike {a a' : Action} (h : a.SameTarget a') :
    a.Alike Hit.SameTarget a' := by
  cases a <;> cases a' <;> exact h

/-! ### Slots that teach nothing -/

/-- Every slot that feeds a cache is always watched. -/
theorem returnCase_of_unwatched {nm : Bytes} (h : alwaysWatch nm = false) :
    returnCase nm = .other := by
  simp only [alwaysWatch, List.contains_eq_mem, List.mem_cons, List.not_mem_nil, or_false,
    not_or, decide_eq_false_iff_not] at h
  obtain ⟨h1, h2, h3, h4, h5, h6, h7, h8, h9, h10, h11, h12⟩ := h
  simp only [returnCase, h1, h2, h3, h4, h5, h6, h7, h8, h9, h10, h11, h12, or_self, if_false]

theorem teach_of_unwatched (cs : Caches) {l : Lesson} (h : alwaysWatch (slotName l.slot) = false) :
    teach cs l = cs := by
  have hcase : returnCase (slotName l.frame.slot) = .other := returnCase_of_unwatched h
  simp only [teach, learn, hcase, learnCase, ite_self]

/-- What a completed call of this offset teaches, whatever else is tracked. -/
def teachCall (slot : Option Nat) (parm : Vector UInt64 nargs) (rc : UInt64)
    (mr : Option UserMemory) (cs : Caches) : Caches :=
  match slot with
  | some slot => if alwaysWatch (slotName slot) then teach cs ⟨slot, parm, rc, mr⟩ else cs
  | none => cs

theorem taught_lesson {S : Session} {tid : UInt32} (hw : watched S.cfg tid = true)
    (ls : List Lesson) (off : UInt64) (entry hit : Hit) (hres : hit.reserved.isSome = true) :
    taught (ls ++ (Journal.lesson S .all tid off entry hit).toList) =
      teachCall (S.slotAt off) entry.ctx.parm (hit.ctx.parm.get 0) hit.env.mr (taught ls) := by
  have hlesson : Journal.lesson S .all tid off entry hit = if S.returnLive .all off then
      (S.slotAt off).map (fun slot => ⟨slot, entry.ctx.parm, hit.ctx.parm.get 0, hit.env.mr⟩)
      else none := by
    simp only [Journal.lesson, hw, hres, Bool.true_and, Bool.and_true]
  rw [hlesson]
  cases hslot : S.slotAt off with
  | none => simp [teachCall]
  | some slot =>
      cases halways : alwaysWatch (slotName slot) with
      | true =>
          have hret : S.retSet slot = true := by simp [Session.retSet, halways]
          have hlive : S.returnLive .all off = true := by
            simpa [Session.returnLive, Attachment.all] using
              (S.mem_retOffsets off).mpr ⟨slot, hslot, hret⟩
          simp only [hlive, if_true, Option.map_some, Option.toList_some, taught_concat,
            teachCall, halways]
      | false =>
          simp only [teachCall, halways, Bool.false_eq_true, if_false]
          split
          · rw [Option.map_some, Option.toList_some, taught_concat, teach_of_unwatched _ halways]
          · simp

theorem lesson_unwatched {S : Session} {tid : UInt32} (hw : watched S.cfg tid = false)
    (off : UInt64) (entry hit : Hit) : Journal.lesson S .all tid off entry hit = none := by
  simp only [Journal.lesson, hw, Bool.false_and, Bool.false_eq_true, if_false]

theorem watched_of_all {cfg : Config} (hall : cfg.tid = 0) (tid : UInt32) :
    watched cfg tid = true := by
  simp [watched, hall]

/-! ### Two journals of one target run -/

/-- The same calls are open, and the same has been taught. -/
structure Journal.Agrees (j j' : Journal) : Prop where
  calls : ∀ t, List.Forall₂ (fun o o' => o.1 = o'.1 ∧ o.2.ctx.parm = o'.2.ctx.parm)
    (j.calls t) (j'.calls t)
  taught : taught j.lessons = taught j'.lessons

section Step

variable {S S' : Session} {j j' : Journal}

theorem Journal.Agrees.enter (h : j.Agrees j') (tid : UInt32) (off : UInt64) {hit hit' : Hit}
    (hparm : hit.ctx.parm = hit'.ctx.parm) :
    (j.step S .all (.enter tid off hit)).Agrees (j'.step S' .all (.enter tid off hit')) where
  calls t := by
    simp only [Journal.step]
    by_cases ht : t = tid
    · subst ht
      rw [Function.update_self, Function.update_self]
      exact List.Forall₂.cons ⟨rfl, hparm⟩ (h.calls t)
    · rw [Function.update_of_ne ht, Function.update_of_ne ht]
      exact h.calls t
  taught := h.taught

theorem Journal.Agrees.leave (h : j.Agrees j') (hslots : ∀ off, S.slotAt off = S'.slotAt off)
    (tid : UInt32) (hwatch : watched S.cfg tid = watched S'.cfg tid) {hit hit' : Hit}
    (hsame : hit.SameWords hit') :
    (j.step S .all (.leave tid hit)).Agrees (j'.step S' .all (.leave tid hit')) := by
  have hhere := h.calls tid
  cases hcalls : j.calls tid with
  | nil =>
      rw [hcalls, List.forall₂_nil_left_iff] at hhere
      simp only [Journal.step, hcalls, hhere]
      exact h
  | cons o rest =>
      obtain ⟨off, entry⟩ := o
      rw [hcalls, List.forall₂_cons_left_iff] at hhere
      obtain ⟨⟨off', entry'⟩, rest', ⟨hoff, hparm⟩, hbelow, hcalls'⟩ := hhere
      dsimp only at hoff hparm
      subst hoff
      simp only [Journal.step, hcalls, hcalls']
      refine ⟨?_, ?_⟩
      · intro t
        dsimp only
        by_cases ht : t = tid
        · subst ht
          rwa [Function.update_self, Function.update_self]
        · rw [Function.update_of_ne ht, Function.update_of_ne ht]
          exact h.calls t
      · dsimp only
        cases hw : watched S.cfg tid with
        | false =>
            rw [lesson_unwatched hw, lesson_unwatched (hwatch ▸ hw), Option.toList_none,
              List.append_nil, List.append_nil]
            exact h.taught
        | true =>
            rw [taught_lesson hw _ off entry hit hsame.recorded,
              taught_lesson (hwatch ▸ hw) _ off entry' hit' hsame.recorded', hslots, hparm,
              hsame.parm, hsame.mr, h.taught]

end Step

/-- Two sessions that know the same functions and watch the same threads are
taught the same by one run. -/
theorem taught_sameWords {S S' : Session} (hslots : ∀ off, S.slotAt off = S'.slotAt off)
    (hwatch : ∀ tid, watched S.cfg tid = watched S'.cfg tid) {acts acts' : List Action}
    (h : List.Forall₂ (Action.Alike Hit.SameWords) acts acts') :
    taught (Journal.run S .all acts).lessons = taught (Journal.run S' .all acts').lessons := by
  have hagrees : (Journal.run S .all acts).Agrees (Journal.run S' .all acts') := by
    apply Runs.simulation _ _ h ⟨fun _ => .nil, rfl⟩
    intro j j' a a' hj ha
    cases a with
    | enter tid off hit =>
        cases a' with
        | leave tid' hit' => exact ha.elim
        | enter tid' off' hit' =>
            obtain ⟨rfl, rfl, hsame⟩ := ha
            exact hj.enter tid off hsame.parm
    | leave tid hit =>
        cases a' with
        | enter tid' off' hit' => exact ha.elim
        | leave tid' hit' =>
            obtain ⟨rfl, hsame⟩ := ha
            exact hj.leave hslots tid (hwatch tid) hsame
  exact hagrees.taught

/-- With no thread option every thread is watched. -/
theorem taught_sameTarget {S S' : Session} (hslots : ∀ off, S.slotAt off = S'.slotAt off)
    (hall : S.cfg.tid = 0) (hall' : S'.cfg.tid = 0) {acts acts' : List Action}
    (h : List.Forall₂ Action.SameTarget acts acts') :
    taught (Journal.run S .all acts).lessons = taught (Journal.run S' .all acts').lessons := by
  apply taught_sameWords hslots
  · intro tid
    rw [watched_of_all hall, watched_of_all hall']
  · exact h.imp (fun _ _ ha => ha.alike.imp (fun _ _ => Hit.SameTarget.sameWords))

end JniProbe
