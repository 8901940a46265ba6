import JniProbe.Loader.Learning
import JniProbe.System.Answers
import Mathlib.Data.List.Forall2

/-!
What a run teaches. When every return is paired with its own entry, frames and
counters play no part in the caches: they hold what the completed calls teach,
one after the other. A completed call is the function entered, the registers
at its entry, and the value and the memory at its return.
-/

namespace JniProbe

/-- A completed call as the caches see it. -/
structure Lesson where
  slot : Nat
  a : Vector UInt64 nargs
  rc : UInt64
  mr : Option UserMemory

def Lesson.frame (l : Lesson) : Frame := ⟨l.slot, 0, [], [], l.a.get 1, l.a.get 2, l.a.get 3⟩

@[simp] theorem Lesson.frame_a1 (l : Lesson) : l.frame.a1 = (l.a.get 1) := rfl

def teach (cs : Caches) (l : Lesson) : Caches := learn l.mr l.frame l.rc cs

def taught (ls : List Lesson) : Caches := ls.foldl teach newCaches

theorem taught_concat (ls : List Lesson) (l : Lesson) :
    taught (ls ++ [l]) = teach (taught ls) l := by
  simp [taught]

/-! ### The journal of a run -/

/-- The hits at which the open calls were entered, and the lessons so far. -/
structure Journal where
  calls : UInt32 → List (UInt64 × Hit)
  lessons : List Lesson

namespace Journal

def start : Journal := ⟨fun _ => [], []⟩

/-- What the return of a call teaches, if a record of it reaches the caches. -/
def lesson (S : Session) (att : Attachment) (tid : UInt32) (off : UInt64) (entry hit : Hit) :
    Option Lesson :=
  if watched S.cfg tid && S.returnLive att off && hit.reserved.isSome then
    (S.slotAt off).map (fun slot => ⟨slot, entry.ctx.parm, hit.ctx.parm.get 0, hit.env.mr⟩)
  else none

theorem lesson_some {S : Session} {att : Attachment} {tid : UInt32} {off : UInt64}
    {entry hit : Hit} {l : Lesson} (h : lesson S att tid off entry hit = some l) :
    ∃ slot, S.slotAt off = some slot ∧
      l = ⟨slot, entry.ctx.parm, hit.ctx.parm.get 0, hit.env.mr⟩ := by
  unfold lesson at h
  split at h
  · obtain ⟨slot, hslot, rfl⟩ := Option.map_eq_some_iff.mp h
    exact ⟨slot, hslot, rfl⟩
  · cases h

def step (S : Session) (att : Attachment) (j : Journal) : Action → Journal
  | .enter tid off hit =>
    { j with calls := Function.update j.calls tid ((off, hit) :: j.calls tid) }
  | .leave tid hit =>
    match j.calls tid with
    | [] => j
    | (off, entry) :: rest =>
      ⟨Function.update j.calls tid rest,
        j.lessons ++ (lesson S att tid off entry hit).toList⟩

def run (S : Session) (att : Attachment) (acts : List Action) : Journal :=
  Runs.run (step S att) start acts

theorem run_concat (S : Session) (att : Attachment) (acts : List Action) (a : Action) :
    run S att (acts ++ [a]) = step S att (run S att acts) a :=
  Runs.run_concat _ _ _ _

end Journal

/-- The entry records of an open call show the offset and the registers that
the journal noted for it. -/
structure Noted (S : Session) (recs : List Record) (c : OpenCall) (o : UInt64 × Hit) : Prop where
  off : c.off = o.1
  entry : ∀ e ∈ recs, e.evt.kind = 0 → e.call = c.id →
    e.evt.ip - S.base = o.1 ∧ e.evt.a = o.2.ctx.parm

/-- The journal follows the machine. -/
def Journal.Follows (S : Session) (m : Machine) (j : Journal) : Prop :=
  ∀ t, List.Forall₂ (Noted S m.ring) (m.callStacks t) (j.calls t)

section Step

variable {S : Session} {att : Attachment} {m : Machine} {j : Journal}

theorem Noted.append {recs added : List Record} {c : OpenCall} {o : UInt64 × Hit}
    (h : Noted S recs c o) (hother : ∀ r ∈ added, r.evt.kind = 0 → r.call ≠ c.id) :
    Noted S (recs ++ added) c o where
  off := h.off
  entry e he hkind hcall := by
    rcases List.mem_append.mp he with hold | hnew
    · exact h.entry e hold hkind hcall
    · exact absurd hcall (hother e hnew hkind)

/-- The new call and its record are noted; the calls below keep their records. -/
theorem Journal.Follows.enter (h : j.Follows S m) (hlabels : Labelled m) (tid : UInt32)
    (off : UInt64) (hit : Hit) :
    (j.step S att (.enter tid off hit)).Follows S (Machine.enter S att m tid off hit) := by
  have hgrow : ∃ added, (Machine.enter S att m tid off hit).ring = m.ring ++ added ∧
      ∀ r ∈ added, r.call = m.next ∧ r.evt.ip - S.base = off ∧ r.evt.a = hit.ctx.parm := by
    rcases Machine.enter_cases S att m tid off hit with ⟨hsame, -⟩ | ⟨raw, -, -, hentry, -⟩
    · exact ⟨[], hsame.trans (List.append_nil _).symm, by simp⟩
    · refine ⟨[Machine.enterRecord S m tid off hit raw], hentry, ?_⟩
      intro r hr
      obtain rfl := List.mem_singleton.mp hr
      have hoff : (Machine.entryCtx S tid off hit).ip - S.base = off := Machine.entryCtx_offset
      exact ⟨rfl, by simpa using hoff, by simp [Machine.entryCtx]⟩
  obtain ⟨added, hring, hadded⟩ := hgrow
  have hfresh {r : Record} (hr : r ∈ added) {c : OpenCall} (hlt : c.id < m.next) :
      r.call ≠ c.id := by
    rw [(hadded r hr).1]
    omega
  have hold (t : UInt32) :
      List.Forall₂ (Noted S (m.ring ++ added)) (m.callStacks t) (j.calls t) := by
    have hboth := (List.forall₂_and_left _ _).mpr ⟨hlabels.fresh t, h t⟩
    apply hboth.imp
    rintro c o ⟨hlt, hnoted⟩
    exact hnoted.append (fun r hr _ => hfresh hr hlt)
  intro t
  rw [hring, Machine.stacks_enter]
  simp only [Journal.step]
  by_cases ht : t = tid
  · subst ht
    rw [Function.update_self, Function.update_self]
    refine List.Forall₂.cons ⟨rfl, ?_⟩ (hold t)
    intro e he _ hcall
    rcases List.mem_append.mp he with hbefore | hnew
    · have hlt := hlabels.used e hbefore
      dsimp only at hcall
      omega
    · exact (hadded e hnew).2
  · rw [Function.update_of_ne ht, Function.update_of_ne ht]
    exact hold t

/-- A return record is not an entry record, so the calls below stay noted. -/
theorem Journal.Follows.leave (h : j.Follows S m) (tid : UInt32) (hit : Hit) :
    (j.step S att (.leave tid hit)).Follows S (Machine.leave S att m tid hit) := by
  have hhere := h tid
  cases hstack : m.callStacks tid with
  | nil =>
      rw [hstack, List.forall₂_nil_left_iff] at hhere
      rw [Machine.leave_idle hstack]
      simp only [Journal.step, hhere]
      exact h
  | cons call rest =>
      rw [hstack, List.forall₂_cons_left_iff] at hhere
      obtain ⟨⟨off, entry⟩, below, hnoted, hbelow, hcalls⟩ := hhere
      have hgrow : ∃ added, (Machine.leave S att m tid hit).ring = m.ring ++ added ∧
          ∀ r ∈ added, r.evt.kind = 1 := by
        rcases (Machine.ring_leave hstack : (Machine.leave S att m tid hit).ring = m.ring ∨ _) with
          hsame | ⟨r, hr, hkind, -⟩
        · exact ⟨[], by simp [hsame], by simp⟩
        · exact ⟨[r], hr, by simp [hkind]⟩
      obtain ⟨added, hring, hadded⟩ := hgrow
      have hkeep {c : OpenCall} {o : UInt64 × Hit} (hc : Noted S m.ring c o) :
          Noted S (m.ring ++ added) c o := by
        apply hc.append
        intro r hr hkind
        rw [hadded r hr] at hkind
        cases hkind
      intro t
      rw [hring, Machine.stacks_leave hstack]
      simp only [Journal.step, hcalls]
      by_cases ht : t = tid
      · subst ht
        rw [Function.update_self, Function.update_self]
        exact hbelow.imp (fun _ _ => hkeep)
      · rw [Function.update_of_ne ht, Function.update_of_ne ht]
        exact (h t).imp (fun _ _ => hkeep)

end Step

/-- Along every run, with any attachments and losses, the journal knows the
offsets and registers of the open calls. -/
theorem Journal.follows_run (S : Session) (att : Attachment) (acts : List Action) :
    (Journal.run S att acts).Follows S (Machine.run S att acts) := by
  induction acts using List.reverseRecOn with
  | nil =>
      intro t
      exact List.Forall₂.nil
  | append_singleton acts a ih =>
      rw [Machine.run_concat, Journal.run_concat]
      cases a with
      | enter tid off hit => exact ih.enter (labelled_run S att acts) tid off hit
      | leave tid hit => exact ih.leave tid hit

/-! ### The caches of a run -/

theorem PairsOwn.of_append {S : Session} {recs added : List Record}
    (h : PairsOwn S (recs ++ added)) : PairsOwn S recs := by
  intro j r hr hkind hw
  obtain ⟨hlt, -⟩ := List.getElem?_eq_some_iff.mp hr
  have hpaired := h j r (by rwa [List.getElem?_append_left hlt]) hkind hw
  rwa [List.take_append_of_le_length hlt.le] at hpaired

section Caches

variable {S : Session} {att : Attachment} {m : Machine} {tid : UInt32}

theorem Tracker.caches_of_entry (recs : List Record) {r : Record} (hkind : r.evt.kind = 0) :
    (Tracker.after S (recs ++ [r])).caches = (Tracker.after S recs).caches := by
  rw [Tracker.after_concat]
  cases hw : watched S.cfg r.evt.tid with
  | false => rw [handleEvent_unwatched _ _ _ hw]
  | true => rw [handleEvent_entry _ _ _ hw hkind, handleEntry_caches]

/-- A recorded return of a watched thread teaches its own call. -/
theorem PairsOwn.caches_leave {acts : List Action} {hit : Hit} {call : OpenCall}
    {rest : List OpenCall} {entry : Hit} {raw : Evt}
    (h : PairsOwn S (Machine.run S att (acts ++ [.leave tid hit])).ring)
    (hstack : (Machine.run S att acts).callStacks tid = call :: rest)
    (hnoted : Noted S (Machine.run S att acts).ring call (call.off, entry))
    (hlive : S.returnLive att call.off = true) (hraw : hit.reserved = some raw)
    (hw : watched S.cfg tid = true) :
    ∃ slot, S.slotAt call.off = some slot ∧
      (Tracker.after S (Machine.run S att (acts ++ [.leave tid hit])).ring).caches =
        teach (Tracker.after S (Machine.run S att acts).ring).caches
          ⟨slot, entry.ctx.parm, hit.ctx.parm.get 0, hit.env.mr⟩ := by
  have hring : (Machine.run S att (acts ++ [.leave tid hit])).ring =
      (Machine.run S att acts).ring ++
        [Machine.leaveRecord (Machine.run S att acts) tid hit call.id raw] := by
    rw [Machine.run_concat]
    simp only [Machine.step, Machine.leave_recorded raw hstack hlive hraw]
  have hlast : (Machine.run S att (acts ++ [.leave tid hit])).ring[
      (Machine.run S att acts).ring.length]? = some
        (Machine.leaveRecord (Machine.run S att acts) tid hit call.id raw) := by
    rw [hring]
    simp
  have hbefore : (Machine.run S att (acts ++ [.leave tid hit])).ring.take
      (Machine.run S att acts).ring.length = (Machine.run S att acts).ring := by
    rw [hring]
    simp
  have hafter : (Machine.run S att (acts ++ [.leave tid hit])).ring.take
      ((Machine.run S att acts).ring.length + 1) =
      (Machine.run S att (acts ++ [.leave tid hit])).ring := by
    rw [hring]
    simp
  rcases h.caches_step hlast hw with ⟨hkind, -⟩ | ⟨i, e, slot, hi, hcall, hlearn⟩
  · exact absurd rfl hkind
  · rw [hbefore, hafter] at hlearn
    have he : e ∈ (Machine.run S att acts).ring := by
      rw [← hbefore]
      exact List.mem_of_getElem? (by rw [List.getElem?_take_of_lt hi, hcall.entered])
    obtain ⟨hip, ha⟩ := hnoted.entry e he hcall.entry hcall.call
    refine ⟨slot, ?_, ?_⟩
    · rw [← hcall.slot, hip]
    · rw [hlearn]
      apply learn_congr
      · rfl
      · rw [storedFrame_a1, ha]
        rfl
      · rw [storedFrame_a2, ha]
        rfl
      · rw [storedFrame_a3, ha]
        rfl

/-- A return that leaves no record, or one of a thread that is not watched,
changes no cache. -/
theorem Tracker.caches_of_silent_leave {acts : List Action} {hit : Hit} {call : OpenCall}
    {rest : List OpenCall} (hstack : (Machine.run S att acts).callStacks tid = call :: rest)
    (h : (watched S.cfg tid && S.returnLive att call.off && hit.reserved.isSome) = false) :
    (Tracker.after S (Machine.run S att (acts ++ [.leave tid hit])).ring).caches =
      (Tracker.after S (Machine.run S att acts).ring).caches := by
  rw [Machine.run_concat, Machine.step]
  by_cases hrec : S.returnLive att call.off = true ∧ hit.reserved.isSome = true
  · obtain ⟨raw, hraw⟩ := Option.isSome_iff_exists.mp hrec.2
    have hw : watched S.cfg tid = false := by simpa [hrec.1, hrec.2] using h
    rw [Machine.leave_recorded raw hstack hrec.1 hraw, Tracker.after_concat,
      handleEvent_unwatched _ _ _ hw]
  · rw [Machine.leave_silent hstack hrec]

/-- The caches after a run whose returns are paired with their own entries are
what its completed calls teach. -/
theorem PairsOwn.caches_taught (acts : List Action)
    (h : PairsOwn S (Machine.run S att acts).ring) :
    (Tracker.after S (Machine.run S att acts).ring).caches =
      taught (Journal.run S att acts).lessons := by
  induction acts using List.reverseRecOn with
  | nil => rfl
  | append_singleton acts a ih =>
      have hprefix : PairsOwn S (Machine.run S att acts).ring := by
        obtain ⟨added, hadded⟩ := Machine.ring_grows S att (List.prefix_append acts [a])
        rw [← hadded] at h
        exact h.of_append
      rw [Journal.run_concat]
      cases a with
      | enter tid off hit =>
          rw [Machine.run_concat]
          simp only [Journal.step, Machine.step]
          rcases Machine.ring_enter with hsame | ⟨r, hr, hkind, -⟩
          · rw [hsame]
            exact ih hprefix
          · rw [hr, Tracker.caches_of_entry _ hkind]
            exact ih hprefix
      | leave tid hit =>
          have hfollows := Journal.follows_run S att acts tid
          cases hstack : (Machine.run S att acts).callStacks tid with
          | nil =>
              rw [hstack, List.forall₂_nil_left_iff] at hfollows
              rw [Machine.run_concat]
              simp only [Journal.step, hfollows, Machine.step, Machine.leave_idle hstack]
              exact ih hprefix
          | cons call rest =>
              rw [hstack, List.forall₂_cons_left_iff] at hfollows
              obtain ⟨⟨off, entry⟩, below, hnoted, -, hcalls⟩ := hfollows
              obtain rfl : call.off = off := hnoted.off
              simp only [Journal.step, hcalls]
              by_cases hrec :
                  (watched S.cfg tid && S.returnLive att call.off && hit.reserved.isSome) = true
              · obtain ⟨⟨hw, hlive⟩, hres⟩ := by simpa only [Bool.and_eq_true] using hrec
                obtain ⟨raw, hraw⟩ := Option.isSome_iff_exists.mp hres
                obtain ⟨slot, hslot, hcaches⟩ := h.caches_leave hstack hnoted hlive hraw hw
                have hlesson : Journal.lesson S att tid call.off entry hit =
                    some ⟨slot, entry.ctx.parm, hit.ctx.parm.get 0, hit.env.mr⟩ := by
                  simp [Journal.lesson, hw, hlive, hres, hslot]
                rw [hcaches, ih hprefix, hlesson, Option.toList_some, taught_concat]
              · rw [Bool.not_eq_true] at hrec
                have hlesson : Journal.lesson S att tid call.off entry hit = none := by
                  simp only [Journal.lesson, hrec, Bool.false_eq_true, if_false]
                rw [Tracker.caches_of_silent_leave hstack hrec, ih hprefix, hlesson,
                  Option.toList_none, List.append_nil]

end Caches

end JniProbe
