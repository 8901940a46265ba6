import JniProbe.System.Answers
import JniProbe.System.Covered

/-!
The loader's tracker follows the stack tracer along every covered run: its
caches are the same and its frames map holds the frames of the pending calls
under their depths. Every return record is therefore answered with the frame
of its own call.
-/

namespace JniProbe

open GoText HeightSlots

/-- Where a pending call comes from: an entry record of this thread for a
tracked slot, processed with these caches. -/
structure Pending.EnteredIn (S : Session) (recs : List Record) (tid : UInt32) (p : Pending) :
    Prop where
  record : ∃ pre post, recs = pre ++ p.entry :: post ∧ p.caches = (Tracker.after S pre).caches
  thread : p.entry.evt.tid = tid
  kind : p.entry.evt.kind = 0
  slot : S.slotAt (p.entry.evt.ip - S.base) = some p.slot
  tracked : S.retSet p.slot = true

/-- The stack tracer and the loader's tracker in the same state. -/
structure Follows (S : Session) (m : Machine) (s : StackTracer) : Prop where
  caches : (Tracker.after S m.ring).caches = s.caches
  frames : ∀ t d, (Tracker.after S m.ring).frames (t.toInt32, d) =
    slots (watched S.cfg t) ((s.pending t).reverse.map (Pending.frame S)) d
  calls : ∀ t, watched S.cfg t = true →
    (s.pending t).reverse.map (·.entry.call) = m.openTracked S t
  entered : ∀ t, ∀ p ∈ s.pending t, p.EnteredIn S m.ring t
  heights : ∀ t, ∀ (inner outer : List Pending) (p : Pending), s.pending t = inner ++ p :: outer →
    p.entry.evt.depth.toInt = (outer.length : Int)

theorem follows_start (S : Session) : Follows S Machine.start StackTracer.start where
  caches := rfl
  frames t d := by simp [Machine.start, StackTracer.start, Tracker.after, Tracker.start, slots_nil]
  calls t _ := by simp [Machine.start, StackTracer.start, Machine.openTracked]
  entered t p hp := by simp [StackTracer.start] at hp
  heights t inner outer p h := by simp [StackTracer.start] at h

theorem Pending.EnteredIn.concat {S : Session} {recs : List Record} {tid : UInt32} {p : Pending}
    (h : p.EnteredIn S recs tid) (r : Record) : p.EnteredIn S (recs ++ [r]) tid := by
  obtain ⟨pre, post, rfl, hcaches⟩ := h.record
  exact { h with record := ⟨pre, post ++ [r], by simp, hcaches⟩ }

/-! ### One record -/

section Record

variable {S : Session} {m : Machine} {s : StackTracer} (tid : UInt32) (off : UInt64) (hit : Hit)

theorem StackTracer.step_unwatched (r : Record) (h : watched S.cfg r.evt.tid = false) :
    s.step S r = s := by
  simp [StackTracer.step, h]

theorem StackTracer.step_entry (r : Record) (h : watched S.cfg r.evt.tid = true)
    (hkind : r.evt.kind = 0) : s.step S r = s.push S r := by
  simp [StackTracer.step, h, hkind]

theorem StackTracer.step_return (r : Record) (h : watched S.cfg r.evt.tid = true)
    (hkind : r.evt.kind = 1) : s.step S r = s.pop S r := by
  simp [StackTracer.step, h, hkind]

end Record

/-! ### One step of the machine -/

section Step

variable {S : Session} {m : Machine} {s : StackTracer} {tid : UInt32} {off : UInt64} {hit : Hit}
  {raw : Evt}

/-- A record of a thread that is not watched changes nothing. -/
theorem Follows.unwatched {m' : Machine} (h : Follows S m s) (r : Record)
    (hring : m'.ring = m.ring ++ [r]) (hw : watched S.cfg r.evt.tid = false)
    (hcalls : ∀ t, t ≠ r.evt.tid → m'.openTracked S t = m.openTracked S t) :
    Follows S m' (s.step S r) := by
  have hafter : Tracker.after S m'.ring = Tracker.after S m.ring := by
    rw [hring, Tracker.after_concat, handleEvent_unwatched _ _ _ hw]
  rw [StackTracer.step_unwatched r hw]
  refine ⟨?_, ?_, ?_, ?_, h.heights⟩
  · rw [hafter]
    exact h.caches
  · intro t d
    rw [hafter]
    exact h.frames t d
  · intro t ht
    have hne : t ≠ r.evt.tid := by
      rintro rfl
      rw [hw] at ht
      cases ht
    rw [hcalls t hne]
    exact h.calls t ht
  · intro t p hp
    rw [hring]
    exact (h.entered t p hp).concat r

/-- An entry record of a slot that is not tracked carries no depth. -/
theorem Follows.enter_untracked (h : Follows S m s) (hw : watched S.cfg tid = true)
    (htracked : S.tracked off = false) (hoff : off ∈ S.offsets) (hres : hit.reserved = some raw) :
    Follows S (Machine.enter S .all m tid off hit)
      (s.step S (Machine.enterRecord S m tid off hit raw)) := by
  have hlive : S.entryLive .all off = true := by simpa [S.entryLive_all] using hoff
  have hhas : S.hasret off = false := S.hasret_of_untracked htracked
  set r := Machine.enterRecord S m tid off hit raw with hr
  have hrtid : r.evt.tid = tid := by simp [hr]
  have hrkind : r.evt.kind = 0 := by simp [hr]
  have hip : r.evt.ip - S.base = off := by simpa [hr] using Machine.entryCtx_offset
  have hdepth : r.evt.depth = -1 := by simp [hr, Machine.entryEvt_depth_at, hhas]
  have hring : (Machine.enter S .all m tid off hit).ring = m.ring ++ [r] := by
    rw [Machine.enter_recorded raw hlive hres]
  have hnot (slot : Nat) (hslot : S.slotAt off = some slot) : S.retSet slot = false := by
    rw [Bool.eq_false_iff]
    intro hret
    have hmem := (S.mem_retOffsets off).mpr ⟨slot, hslot, hret⟩
    simp [Session.tracked, hmem] at htracked
  have hpush : s.push S r = s := by
    unfold StackTracer.push
    rw [hip]
    split
    · rename_i slot hslot
      simp [hnot slot hslot]
    · rfl
  have hframes : (handleEntry S r.env (Tracker.after S m.ring) r.evt).1.frames =
      (Tracker.after S m.ring).frames := by
    apply handleEntry_frames_other
    · intro slot hslot hboth
      rw [hip] at hslot
      simp [hnot slot hslot] at hboth
    · have hkey : r.evt.key = (tid.toInt32, -1) := by simp [Evt.key, hrtid, hdepth]
      rw [hkey, h.frames]
      simp [slots]
  have hafter : Tracker.after S (Machine.enter S .all m tid off hit).ring =
      Tracker.after S m.ring := by
    rw [hring, Tracker.after_concat, handleEvent_entry _ _ _ (by rwa [hrtid]) hrkind]
    have hcaches := handleEntry_caches S r.env (Tracker.after S m.ring) r.evt
    calc (handleEntry S r.env (Tracker.after S m.ring) r.evt).1
        = ⟨(handleEntry S r.env (Tracker.after S m.ring) r.evt).1.frames,
            (handleEntry S r.env (Tracker.after S m.ring) r.evt).1.caches⟩ := rfl
      _ = Tracker.after S m.ring := by rw [hframes, hcaches]
  rw [StackTracer.step_entry r (by rwa [hrtid]) hrkind, hpush]
  refine ⟨?_, ?_, ?_, ?_, h.heights⟩
  · rw [hafter]
    exact h.caches
  · intro t d
    rw [hafter]
    exact h.frames t d
  · intro t ht
    rw [h.calls t ht, Machine.openTracked_enter_untracked htracked]
  · intro t p hp
    rw [hring]
    exact (h.entered t p hp).concat r

/-- An entry record of a tracked slot pushes: its frame lies on top of the
stack, under the old counter. -/
theorem Follows.enter_tracked (h : Follows S m s) (hw : watched S.cfg tid = true)
    (htracked : S.tracked off = true) (hhas : S.hasret off = true)
    (hres : hit.reserved = some raw)
    (hcount : (DepthMap.count m.depth tid).toNat = (m.openTracked S tid).length)
    (hfit : (m.openTracked S tid).length < 2 ^ 31) :
    Follows S (Machine.enter S .all m tid off hit)
      (s.step S (Machine.enterRecord S m tid off hit raw)) := by
  have hlive : S.entryLive .all off = true := by
    simpa [S.entryLive_all] using S.mem_offsets_of_tracked htracked
  obtain ⟨slot, hslot, hret⟩ := (S.mem_retOffsets off).mp (S.mem_retOffsets_of_hasret hhas)
  set d := DepthMap.count m.depth tid with hd
  set r := Machine.enterRecord S m tid off hit raw with hr
  have hrtid : r.evt.tid = tid := by simp [hr]
  have hrkind : r.evt.kind = 0 := by simp [hr]
  have hrslot : S.slotAt (r.evt.ip - S.base) = some slot := by
    have hip : r.evt.ip - S.base = off := by simpa [hr] using Machine.entryCtx_offset
    rw [hip, hslot]
  have hdepth : r.evt.depth = d.toInt32 := by simp [hr, Machine.entryEvt_depth_at, hhas, hd]
  have hlt : d.toNat < 2 ^ 31 := by omega
  have hkey : r.evt.key = (tid.toInt32, d.toInt32) := by simp [Evt.key, hrtid, hdepth]
  have hlen : (s.pending tid).length = (m.openTracked S tid).length := by
    rw [← h.calls tid hw]
    simp
  have hring : (Machine.enter S .all m tid off hit).ring = m.ring ++ [r] := by
    rw [Machine.enter_recorded raw hlive hres]
  have hnext : s.step S r = ⟨Function.update s.pending tid (⟨r, slot, s.caches⟩ :: s.pending tid),
      s.caches⟩ := by
    rw [StackTracer.step_entry r (by rwa [hrtid]) hrkind]
    simp only [StackTracer.push, hrslot, hret, if_true, hrtid]
  have hafter : Tracker.after S (Machine.enter S .all m tid off hit).ring =
      (handleEntry S r.env (Tracker.after S m.ring) r.evt).1 := by
    rw [hring, Tracker.after_concat, handleEvent_entry _ _ _ (by rwa [hrtid]) hrkind]
  have hframes := handleEntry_frames_stored S r.env (Tracker.after S m.ring) r.evt hrslot hret
    (by rw [hdepth]; exact (nonneg_toInt32_iff d).mpr hlt)
  rw [hkey, h.caches] at hframes
  rw [hnext]
  refine ⟨?_, ?_, ?_, ?_, ?_⟩
  · rw [hafter, handleEntry_caches]
    exact h.caches
  · intro t d'
    rw [hafter, hframes]
    dsimp only
    by_cases ht : t = tid
    · subst ht
      rw [Function.update_self, List.reverse_cons, List.map_append, List.map_singleton,
        slots_push _ _ _ d (by simp; omega), hw]
      simp only [hlt, decide_true, Bool.and_self, if_true]
      exact update_row_self (fun i => by rw [h.frames, hw]) _ _ d'
    · rw [Function.update_of_ne ht, update_row_ne (toInt32_injective.ne ht), h.frames]
  · intro t ht
    by_cases heq : t = tid
    · subst heq
      simp [Machine.openTracked_enter_self, htracked, h.calls t ht, hr]
    · rw [Machine.openTracked_enter_ne heq]
      simpa [Function.update_of_ne heq] using h.calls t ht
  · intro t p hp
    rw [hring]
    dsimp only at hp
    by_cases heq : t = tid
    · subst heq
      rw [Function.update_self] at hp
      rcases List.mem_cons.mp hp with rfl | hold
      · exact ⟨⟨m.ring, [], rfl, h.caches.symm⟩, hrtid, hrkind, hrslot, hret⟩
      · exact (h.entered t p hold).concat r
    · rw [Function.update_of_ne heq] at hp
      exact (h.entered t p hp).concat r
  · intro t inner outer p hsplit
    dsimp only at hsplit
    by_cases heq : t = tid
    · subst heq
      rw [Function.update_self] at hsplit
      cases inner with
      | nil =>
          obtain ⟨rfl, rfl⟩ : ⟨r, slot, s.caches⟩ = p ∧ s.pending t = outer := by
            simpa using hsplit
          rw [hdepth, toInt32_toInt, if_pos hlt]
          omega
      | cons q inner =>
          obtain ⟨-, hrest⟩ : ⟨r, slot, s.caches⟩ = q ∧ s.pending t = inner ++ p :: outer := by
            simpa using hsplit
          exact h.heights t inner outer p hrest
    · rw [Function.update_of_ne heq] at hsplit
      exact h.heights t inner outer p hsplit

/-- The return record of a tracked call finds the frame on top of the stack,
which is its own, and pops it. -/
theorem Follows.return_found (h : Follows S m s) (hit : Hit) (hw : watched S.cfg tid = true)
    {call : OpenCall} {rest : List OpenCall} (hstack : m.callStacks tid = call :: rest)
    (htracked : S.tracked call.off = true) (hcounted : Counted S m) :
    ∃ p outer, s.pending tid = p :: outer ∧ p.entry.call = call.id ∧
      p.entry.evt.depth = (Machine.dropOne (DepthMap.count m.depth tid)).toInt32 ∧
      (Machine.dropOne (DepthMap.count m.depth tid)).toNat = outer.length ∧
      outer.length < 2 ^ 31 ∧
      (Tracker.after S m.ring).frames (tid.toInt32, p.entry.evt.depth) = some (p.frame S) := by
  have hbefore := Machine.openTracked_of_stack S .all hit hstack
  rw [htracked, if_pos rfl] at hbefore
  have hdrop : _ = (m.openTracked S tid).length := hcounted.at_return (by simp [hbefore])
  have hfit := hcounted.fits tid
  have hcalls := h.calls tid hw
  rw [hbefore] at hcalls
  cases hpending : s.pending tid with
  | nil =>
      rw [hpending] at hcalls
      simp at hcalls
  | cons p outer =>
      rw [hpending, List.reverse_cons, List.map_append] at hcalls
      obtain ⟨hbelow, htop⟩ := List.append_inj' hcalls rfl
      have hlen : outer.length + 1 = (m.openTracked S tid).length := by
        rw [← h.calls tid hw, hpending]
        simp
      have hnd : (Machine.dropOne (DepthMap.count m.depth tid)).toNat = outer.length := by omega
      have hlt : (Machine.dropOne (DepthMap.count m.depth tid)).toNat < 2 ^ 31 := by omega
      have hdepth : p.entry.evt.depth = (Machine.dropOne (DepthMap.count m.depth tid)).toInt32 := by
        apply Int32.toInt_inj.mp
        rw [toInt32_toInt, if_pos hlt, hnd]
        exact h.heights tid [] outer p hpending
      refine ⟨p, outer, rfl, by simpa using htop, hdepth, hnd, by omega, ?_⟩
      rw [h.frames, hdepth, slots_of_lt _ _ _ hlt, hw, hpending, hnd]
      simp

theorem Follows.leave_tracked (h : Follows S m s) (hw : watched S.cfg tid = true)
    {call : OpenCall} {rest : List OpenCall} (hstack : m.callStacks tid = call :: rest)
    (htracked : S.tracked call.off = true) (hres : hit.reserved = some raw)
    (hcounted : Counted S m) :
    Follows S (Machine.leave S .all m tid hit)
      (s.step S (Machine.leaveRecord m tid hit call.id raw)) := by
  have hlive : S.returnLive .all call.off = true := by rw [S.returnLive_all, htracked]
  obtain ⟨p, outer, hpending, hcall, hdepth, hnd, hlt, hfound⟩ :=
    h.return_found hit hw hstack htracked hcounted
  set nd := Machine.dropOne (DepthMap.count m.depth tid) with hndef
  set r := Machine.leaveRecord m tid hit call.id raw with hr
  have hrtid : r.evt.tid = tid := rfl
  have hrkind : r.evt.kind = 1 := rfl
  have hrdepth : r.evt.depth = nd.toInt32 := rfl
  have hkey : r.evt.key = (tid.toInt32, p.entry.evt.depth) := by rw [hdepth]; rfl
  have hring : (Machine.leave S .all m tid hit).ring = m.ring ++ [r] := by
    rw [Machine.leave_recorded raw hstack hlive hres]
  have hnonneg : 0 ≤ r.evt.depth := by
    rw [hrdepth]
    exact (nonneg_toInt32_iff nd).mpr (by omega)
  have hafter : Tracker.after S (Machine.leave S .all m tid hit).ring =
      ⟨Function.update (Tracker.after S m.ring).frames (tid.toInt32, nd.toInt32) none,
        learn r.env.mr (p.frame S) r.evt.rc s.caches⟩ := by
    rw [hring, Tracker.after_concat, handleEvent_return _ _ _ (by rwa [hrtid]) hrkind,
      handleReturn_found S r.env _ _ hnonneg (by rw [hkey]; exact hfound), h.caches, hkey, hdepth]
  have hnext : s.step S r = ⟨Function.update s.pending tid outer,
      learn r.env.mr (p.frame S) r.evt.rc s.caches⟩ := by
    rw [StackTracer.step_return r (by rwa [hrtid]) hrkind]
    simp only [StackTracer.pop, hrtid, hpending]
  have hopen := Machine.openTracked_of_stack S .all hit hstack
  rw [hnext]
  refine ⟨?_, ?_, ?_, ?_, ?_⟩
  · rw [hafter]
  · intro t d
    rw [hafter]
    dsimp only
    by_cases ht : t = tid
    · subst ht
      have hframes := h.frames t
      rw [hpending, List.reverse_cons, List.map_append, List.map_singleton] at hframes
      rw [Function.update_self, slots_pop _ _ (p.frame S) nd (by simpa using hnd), hw]
      simp only [hnd, hlt, decide_true, Bool.and_self, if_true]
      exact update_row_self (fun i => by rw [hframes, hw]) _ _ d
    · rw [Function.update_of_ne ht, update_row_ne (toInt32_injective.ne ht)]
      exact h.frames t d
  · intro t ht
    by_cases heq : t = tid
    · subst heq
      have hcalls := h.calls t ht
      rw [hopen, htracked, if_pos rfl, hpending, List.reverse_cons, List.map_append] at hcalls
      simp only [Function.update_self]
      exact (List.append_inj' hcalls rfl).1
    · rw [Machine.openTracked_leave_ne heq]
      simpa [Function.update_of_ne heq] using h.calls t ht
  · intro t q hq
    rw [hring]
    dsimp only at hq
    by_cases heq : t = tid
    · subst heq
      rw [Function.update_self] at hq
      exact (h.entered t q (by simp [hpending, hq])).concat r
    · rw [Function.update_of_ne heq] at hq
      exact (h.entered t q hq).concat r
  · intro t inner outer' q hsplit
    dsimp only at hsplit
    by_cases heq : t = tid
    · subst heq
      rw [Function.update_self] at hsplit
      exact h.heights t (p :: inner) outer' q (by rw [hpending, hsplit]; rfl)
    · rw [Function.update_of_ne heq] at hsplit
      exact h.heights t inner outer' q hsplit

/-- A step without a record, and without a tracked call, changes nothing. -/
theorem Follows.silent {m' : Machine} (h : Follows S m s) (hring : m'.ring = m.ring)
    (hcalls : ∀ t, m'.openTracked S t = m.openTracked S t) : Follows S m' s where
  caches := by rw [hring]; exact h.caches
  frames t d := by rw [hring]; exact h.frames t d
  calls t ht := by rw [hcalls]; exact h.calls t ht
  entered t p hp := by rw [hring]; exact h.entered t p hp
  heights := h.heights

/-- A covered entry keeps the loader with the stack tracer. -/
theorem Follows.enter (h : Follows S m (StackTracer.after S m.ring)) (hcounted : Counted S m)
    (hres : hit.reserved.isSome = true) (hcovers : Machine.Covers S m (.enter tid off hit)) :
    Follows S (Machine.enter S .all m tid off hit)
      (StackTracer.after S (Machine.enter S .all m tid off hit).ring) := by
  obtain ⟨raw, hraw⟩ := Option.isSome_iff_exists.mp hres
  by_cases hoff : off ∈ S.offsets
  · have hlive : S.entryLive .all off = true := by simpa [S.entryLive_all] using hoff
    have hring : (Machine.enter S .all m tid off hit).ring =
        m.ring ++ [Machine.enterRecord S m tid off hit raw] := by
      rw [Machine.enter_recorded raw hlive hraw]
    rw [hring, StackTracer.after_concat]
    by_cases hw : watched S.cfg tid = true
    · by_cases htracked : S.tracked off = true
      · obtain ⟨hhas, hfit, hkey⟩ := hcovers htracked
        exact h.enter_tracked hw htracked hhas hraw (hcounted.at_entry hkey) hfit
      · exact h.enter_untracked hw (by simpa using htracked) hoff hraw
    · apply h.unwatched _ hring (by simpa using hw)
      intro t ht
      exact Machine.openTracked_enter_ne (by simpa using ht)
  · have hlive : S.entryLive .all off = false := by simpa [S.entryLive_all] using hoff
    have hsilent : Machine.enter S .all m tid off hit = _ :=
      Machine.enter_silent (by simp [hlive])
    have hring : (Machine.enter S .all m tid off hit).ring = m.ring := by rw [hsilent]
    have htracked : S.tracked off = false := by
      rw [Bool.eq_false_iff]
      exact fun htracked => hoff (S.mem_offsets_of_tracked htracked)
    rw [hring]
    exact h.silent hring (Machine.openTracked_enter_untracked htracked)

/-- So does a return. -/
theorem Follows.leave (h : Follows S m (StackTracer.after S m.ring)) (hcounted : Counted S m)
    (hres : hit.reserved.isSome = true) :
    Follows S (Machine.leave S .all m tid hit)
      (StackTracer.after S (Machine.leave S .all m tid hit).ring) := by
  obtain ⟨raw, hraw⟩ := Option.isSome_iff_exists.mp hres
  cases hstack : m.callStacks tid with
  | nil =>
      rw [Machine.leave_idle hstack]
      exact h
  | cons call rest =>
      by_cases htracked : S.tracked call.off = true
      · have hlive : S.returnLive .all call.off = true := by rw [S.returnLive_all, htracked]
        have hring : (Machine.leave S .all m tid hit).ring =
            m.ring ++ [Machine.leaveRecord m tid hit call.id raw] := by
          rw [Machine.leave_recorded raw hstack hlive hraw]
        rw [hring, StackTracer.after_concat]
        by_cases hw : watched S.cfg tid = true
        · exact h.leave_tracked hw hstack htracked hraw hcounted
        · apply h.unwatched _ hring
          · simpa [returnEvt, Machine.returnCtx] using hw
          · intro t ht
            exact Machine.openTracked_leave_ne ht
      · have hring : (Machine.leave S .all m tid hit).ring = m.ring := by
          rw [Machine.leave_silent hstack]
          rw [S.returnLive_all]
          exact fun hboth => htracked hboth.1
        rw [hring]
        exact h.silent hring
          (Machine.openTracked_leave_untracked hstack (by simpa using htracked))

end Step

/-! ### Whole runs -/

/-- The loader follows the stack tracer along every covered run. -/
theorem Covered.follows {S : Session} {acts : List Action} (h : Covered S acts) :
    Follows S (Machine.run S .all acts) (StackTracer.after S (Machine.run S .all acts).ring) := by
  induction acts using List.reverseRecOn with
  | nil => exact follows_start S
  | append_singleton acts a ih =>
      have hbefore := h.of_prefix (List.prefix_append _ _)
      have hres := h.reserved a (by simp)
      have hcovers := ((Runs.along_concat _ _ _ _ _).mp h.along).2
      rw [Machine.run_concat]
      cases a with
      | enter tid off hit => exact (ih hbefore).enter hbefore.counted hres hcovers
      | leave tid hit => exact (ih hbefore).leave hbefore.counted hres

section Covered

variable {S : Session} {acts : List Action}

/-- After every prefix of the event stream the caches are those of the stack tracer. -/
theorem Covered.caches_eq (h : Covered S acts) {before : List Record}
    (hbefore : before <+: (Machine.run S .all acts).ring) :
    (Tracker.after S before).caches = (StackTracer.after S before).caches := by
  obtain ⟨first, hfirst, hring⟩ :=
    Machine.ring_prefix S .all acts before.length hbefore.length_le
  have hsame : (Machine.run S .all first).ring = before :=
    hring.trans (List.prefix_iff_eq_take.mp hbefore).symm
  have hcaches := (h.of_prefix hfirst).follows.caches
  rwa [hsame] at hcaches

/-- What the loader finds for a return record of the stream. -/
structure Answered (S : Session) (before : List Record) (r : Record) (p : Pending)
    (outer : List Pending) : Prop where
  top : (StackTracer.after S before).pending r.evt.tid = p :: outer
  call : p.entry.call = r.call
  depth : p.entry.evt.depth = r.evt.depth
  nonneg : 0 ≤ r.evt.depth
  found : (Tracker.after S before).frames r.evt.key = some (p.frame S)
  entered : p.EnteredIn S before r.evt.tid

/-- A return record was submitted by a thread that left a call with a live return probe. -/
theorem Machine.return_source {att : Attachment} {before after : List Record} {r : Record}
    (hring : (Machine.run S att acts).ring = before ++ r :: after) (hkind : r.evt.kind = 1) :
    ∃ first tid hit call rest raw, first ++ [.leave tid hit] <+: acts ∧
      (Machine.run S att first).ring = before ∧
      (Machine.run S att first).callStacks tid = call :: rest ∧
      S.returnLive att call.off = true ∧
      r = Machine.leaveRecord (Machine.run S att first) tid hit call.id raw := by
  obtain ⟨first, a, hwithin, hbefore, hlast⟩ := Runs.log_entry (Machine.step S att) Machine.ring
    (Machine.step_ring S att) Machine.start rfl acts before after r hring
  have hsame : Runs.run (Machine.step S att) Machine.start first = Machine.run S att first := rfl
  rw [hsame] at hbefore hlast
  rw [← hbefore] at hlast
  have hgrow : (Machine.run S att first).ring ≠ (Machine.run S att first).ring ++ [r] := by simp
  cases a with
  | enter tid off hit =>
      exfalso
      simp only [Machine.step] at hlast
      rcases Machine.enter_cases S att (Machine.run S att first) tid off hit with
        ⟨hstays, -⟩ | ⟨raw, -, -, hentry, -⟩
      · exact hgrow (hstays.symm.trans hlast)
      · obtain rfl : Machine.enterRecord S (Machine.run S att first) tid off hit raw = r := by
          simpa using hentry.symm.trans hlast
        simp at hkind
  | leave tid hit =>
      simp only [Machine.step] at hlast
      rcases Machine.leave_cases S att (Machine.run S att first) tid hit with
        ⟨hstays, -⟩ | ⟨call, rest, raw, hstack, hlive, -, hreturn, -⟩
      · exact absurd (hstays.symm.trans hlast) hgrow
      · exact ⟨first, tid, hit, call, rest, raw, hwithin, hbefore, hstack, hlive,
          by simpa using hlast.symm.trans hreturn⟩

/-- In a covered run every return record is paired with its own call. -/
theorem Covered.pairsOwn (h : Covered S acts) : PairsOwn S (Machine.run S .all acts).ring := by
  intro j r hr hkind hw
  obtain ⟨first, tid, hit, call, rest, raw, hwithin, hbefore, hstack, hlive, rfl⟩ :=
    Machine.return_source (split_at hr) hkind
  have hcounted := (h.of_prefix ((List.prefix_append _ _).trans hwithin)).counted
  rw [S.returnLive_all] at hlive
  rw [← hbefore]
  exact hcounted.paired_return hit raw hstack hlive hw

/-- Every return record of a covered run is answered with the frame of the
call that returns. -/
theorem Covered.return_record (h : Covered S acts) {before after : List Record} {r : Record}
    (hring : (Machine.run S .all acts).ring = before ++ r :: after) (hkind : r.evt.kind = 1)
    (hw : watched S.cfg r.evt.tid = true) : ∃ p outer, Answered S before r p outer := by
  obtain ⟨first, tid, hit, call, rest, raw, hwithin, hbefore, hstack, hlive, rfl⟩ :=
    Machine.return_source hring hkind
  have hfirst := h.of_prefix ((List.prefix_append _ _).trans hwithin)
  have hfollows := hfirst.follows
  rw [S.returnLive_all] at hlive
  obtain ⟨p, outer, hpending, hcall, hdepth, hnd, hlt, hfound⟩ :=
    hfollows.return_found hit (show watched S.cfg tid = true from hw) hstack hlive hfirst.counted
  have hentered := hfollows.entered tid p (by rw [hpending]; exact List.mem_cons_self)
  rw [hbefore] at hpending hfound hentered
  refine ⟨p, outer, hpending, hcall, hdepth, ?_, ?_, hentered⟩
  · exact (nonneg_toInt32_iff _).mpr (hnd ▸ hlt)
  · rw [← hfound, hdepth]
    rfl

end Covered

theorem Monitored.pairsOwn {S : Session} {acts : List Action} (h : Monitored S acts) :
    PairsOwn S (Machine.run S .all acts).ring :=
  h.covered.pairsOwn

end JniProbe
