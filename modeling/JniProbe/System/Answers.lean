import JniProbe.System.CallStack
import JniProbe.System.Labels

/-!
What the loader finds at each record of a stream, by position, in any run with
any attachments and losses. The frames map holds, under every key, the frame
stored for the entry record that wrote there last; so a return record that is
paired with its own call finds the frame stored for the entry of this call,
and the caches change by what the call teaches.
-/

namespace JniProbe

open GoText HeightSlots

theorem split_at {recs : List Record} {n : Nat} {r : Record} (h : recs[n]? = some r) :
    recs = recs.take n ++ r :: recs.drop (n + 1) := by
  obtain ⟨hlt, hat⟩ := List.getElem?_eq_some_iff.mp h
  rw [← hat, ← List.drop_eq_getElem_cons hlt, List.take_append_drop]

theorem take_concat {recs : List Record} {n : Nat} {r : Record} (h : recs[n]? = some r) :
    recs.take (n + 1) = recs.take n ++ [r] := by
  rw [List.take_add_one, h, Option.toList_some]

/-! ### The records of a run -/

section Handle

variable {S : Session}

theorem handleEvent_unwatched (env : Env) (t : Tracker) (e : Evt)
    (h : watched S.cfg e.tid = false) : handleEvent S env t e = (t, none) := by
  simp [handleEvent, h]

theorem handleEvent_entry (env : Env) (t : Tracker) (e : Evt) (h : watched S.cfg e.tid = true)
    (hkind : e.kind = 0) : handleEvent S env t e = handleEntry S env t e := by
  simp [handleEvent, h, hkind]

theorem handleEvent_return (env : Env) (t : Tracker) (e : Evt) (h : watched S.cfg e.tid = true)
    (hkind : e.kind = 1) : handleEvent S env t e = handleReturn S env t e := by
  simp [handleEvent, h, hkind]

end Handle

namespace Machine

/-- What holds of every record when it is submitted holds of the whole ring. -/
theorem forall_ring (S : Session) (att : Attachment) {P : Record → Prop} (acts : List Action)
    (hentry : ∀ m tid off hit raw, .enter tid off hit ∈ acts → P (enterRecord S m tid off hit raw))
    (hreturn : ∀ m tid hit call raw, .leave tid hit ∈ acts → P (leaveRecord m tid hit call raw)) :
    ∀ r ∈ (run S att acts).ring, P r := by
  induction acts using List.reverseRecOn with
  | nil =>
      intro r hr
      simp [run, start] at hr
  | append_singleton acts a ih =>
      have ih := ih (fun m tid off hit raw hin => hentry m tid off hit raw (by simp [hin]))
        (fun m tid hit call raw hin => hreturn m tid hit call raw (by simp [hin]))
      intro r hr
      rw [run_concat] at hr
      cases a with
      | enter tid off hit =>
          rcases enter_cases S att (run S att acts) tid off hit with
            ⟨hsame, -⟩ | ⟨raw, -, -, hring, -⟩
          · exact ih r (hsame ▸ hr)
          · simp only [step, hring] at hr
            rcases List.mem_append.mp hr with hold | hnew
            · exact ih r hold
            · rw [List.mem_singleton.mp hnew]
              exact hentry _ tid off hit raw (by simp)
      | leave tid hit =>
          rcases leave_cases S att (run S att acts) tid hit with
            ⟨hsame, -⟩ | ⟨call, rest, raw, -, -, -, hring, -⟩
          · exact ih r (hsame ▸ hr)
          · simp only [step, hring] at hr
            rcases List.mem_append.mp hr with hold | hnew
            · exact ih r hold
            · rw [List.mem_singleton.mp hnew]
              exact hreturn _ tid hit call.id raw (by simp)

theorem kind_of_ring (S : Session) (att : Attachment) (acts : List Action) :
    ∀ r ∈ (run S att acts).ring, r.evt.kind = 0 ∨ r.evt.kind = 1 := by
  apply forall_ring
  · intro m tid off hit raw _
    left
    simp
  · intro m tid hit call raw _
    right
    rfl

/-- Only the entry of a tracked slot carries a depth. -/
theorem tracked_of_depth (S : Session) (att : Attachment) (acts : List Action) :
    ∀ r ∈ (run S att acts).ring, r.evt.kind = 0 → 0 ≤ r.evt.depth →
      ∃ slot, S.slotAt (r.evt.ip - S.base) = some slot ∧ S.retSet slot = true := by
  apply forall_ring
  · intro m tid off hit raw _ _ hdepth
    have hoff : (entryCtx S tid off hit).ip - S.base = off := entryCtx_offset
    rw [entryEvt_depth_at] at hdepth
    rw [entryEvt_ip, hoff]
    split at hdepth
    · rename_i hhas
      exact (S.mem_retOffsets off).mp (S.mem_retOffsets_of_hasret hhas)
    · exact absurd hdepth (by decide)
  · intro m tid hit call raw _ hkind
    cases hkind

end Machine

/-! ### Completed calls -/

/-- The records of one call of the function at `slot`: its entry at position
`i`, its return at position `j`. -/
structure Completed (S : Session) (recs : List Record) (i j : Nat) (e r : Record) (slot : Nat) :
    Prop where
  entered : recs[i]? = some e
  returned : recs[j]? = some r
  entry : e.evt.kind = 0
  ret : r.evt.kind = 1
  call : e.call = r.call
  slot : S.slotAt (e.evt.ip - S.base) = some slot

/-- Two completed calls with one return record are the same. -/
theorem Completed.unique {S : Session} {att : Attachment} {acts : List Action} {i i' j : Nat}
    {e e' r r' : Record} {slot slot' : Nat}
    (h : Completed S (Machine.run S att acts).ring i j e r slot)
    (h' : Completed S (Machine.run S att acts).ring i' j e' r' slot') :
    e = e' ∧ r = r' ∧ slot = slot' ∧ i = i' := by
  obtain rfl : r = r' := Option.some.inj (h.returned.symm.trans h'.returned)
  obtain ⟨hpre, rfl, -⟩ := (labelled_run S att acts).unique (split_at h.entered)
    (split_at h'.entered) (h.entry.trans h'.entry.symm) (h.call.trans h'.call.symm)
  obtain rfl : slot = slot' := Option.some.inj (h.slot.symm.trans h'.slot)
  refine ⟨rfl, rfl, rfl, ?_⟩
  obtain ⟨hlt, -⟩ := List.getElem?_eq_some_iff.mp h.entered
  obtain ⟨hlt', -⟩ := List.getElem?_eq_some_iff.mp h'.entered
  have hlen := congrArg List.length hpre
  rwa [List.length_take_of_le hlt.le, List.length_take_of_le hlt'.le] at hlen

/-! ### What lies in the frames map -/

theorem Tracker.after_take (S : Session) {recs : List Record} {n : Nat} {r : Record}
    (h : recs[n]? = some r) :
    Tracker.after S (recs.take (n + 1)) =
      (handleEvent S r.env (Tracker.after S (recs.take n)) r.evt).1 := by
  rw [take_concat h, Tracker.after_concat]

/-- The frame under `key` after `n` records: none if no call wrote there, else
the one stored for the entry record of the call that wrote last. -/
def FrameOf (S : Session) (recs : List Record) (n : Nat) (key : Key) : Option Nat → Prop
  | none => (Tracker.after S (recs.take n)).frames key = none
  | some call => ∃ i e slot, i < n ∧ recs[i]? = some e ∧ e.evt.kind = 0 ∧ e.call = call ∧
      e.evt.key = key ∧ 0 ≤ e.evt.depth ∧ S.slotAt (e.evt.ip - S.base) = some slot ∧
      (Tracker.after S (recs.take n)).frames key =
        some (storedFrame S e.env e.evt slot (Tracker.after S (recs.take i)).caches)

/-- A key whose frame and writer a record leaves alone. -/
theorem FrameOf.keep {S : Session} {recs : List Record} {n : Nat} {key : Key} {o : Option Nat}
    (h : FrameOf S recs n key o)
    (hsame : (Tracker.after S (recs.take (n + 1))).frames key =
      (Tracker.after S (recs.take n)).frames key) : FrameOf S recs (n + 1) key o := by
  cases o with
  | none => exact hsame.trans h
  | some call =>
      obtain ⟨i, e, slot, hi, he, hkind, hcall, hkey, hdepth, hslot, hframe⟩ := h
      exact ⟨i, e, slot, by omega, he, hkind, hcall, hkey, hdepth, hslot, hsame.trans hframe⟩

/-- Under a negative depth there is never a frame. -/
theorem FrameOf.eq_none {S : Session} {recs : List Record} {n : Nat} {key : Key} {o : Option Nat}
    (h : FrameOf S recs n key o) (hneg : ¬ 0 ≤ key.2) :
    (Tracker.after S (recs.take n)).frames key = none := by
  cases o with
  | none => exact h
  | some call =>
      obtain ⟨i, e, slot, -, -, -, -, rfl, hdepth, -⟩ := h
      exact absurd hdepth hneg

/-- A record of a run that neither stores nor takes a frame leaves all frames as
they are. An entry that stores none carries no depth, so there is no frame whose
text it could set. -/
theorem Machine.frames_kept {S : Session} {att : Attachment} {acts : List Action} {r : Record}
    {t : Tracker} (hmem : r ∈ (Machine.run S att acts).ring)
    (hnone : ¬ 0 ≤ r.evt.depth → t.frames r.evt.key = none)
    (hstores : ¬ storesFrame S r.evt = true) (htakes : ¬ takesFrame S r.evt = true) :
    (handleEvent S r.env t r.evt).1.frames = t.frames := by
  cases hw : watched S.cfg r.evt.tid with
  | false => rw [handleEvent_unwatched _ _ _ hw]
  | true =>
      rcases Machine.kind_of_ring S att acts r hmem with hkind | hkind
      · have hdepth : ¬ 0 ≤ r.evt.depth := by
          intro hdepth
          have htracked := Machine.tracked_of_depth S att acts r hmem hkind hdepth
          exact hstores ((storesFrame_iff S r.evt).mpr ⟨hw, by simp [hkind], hdepth, htracked⟩)
        rw [handleEvent_entry _ _ _ hw hkind]
        exact handleEntry_frames_other S r.env t r.evt (fun _ _ h => hdepth h.2) (hnone hdepth)
      · have hneg : r.evt.depth < 0 := by
          rw [← Int32.not_le]
          intro hdepth
          exact htakes ((takesFrame_iff S r.evt).mpr ⟨hw, hkind, hdepth⟩)
        rw [handleEvent_return _ _ _ hw hkind, handleReturn_frames, if_pos hneg]

/-- In every run and at every moment, the provenance map says which entry
record the frame under each key was stored for. -/
theorem frameOf_provenance (S : Session) (att : Attachment) (acts : List Action) (n : Nat)
    (hn : n ≤ (Machine.run S att acts).ring.length) (key : Key) :
    FrameOf S (Machine.run S att acts).ring n key
      (provenance S ((Machine.run S att acts).ring.take n) key) := by
  induction n generalizing key with
  | zero => rfl
  | succ n ih =>
      have hold := ih (by omega)
      have hr := List.getElem?_eq_getElem (show n < (Machine.run S att acts).ring.length by omega)
      generalize (Machine.run S att acts).ring[n] = r at hr
      have hmem : r ∈ (Machine.run S att acts).ring := List.mem_of_getElem? hr
      rw [take_concat hr, provenance_concat, provenanceStep]
      have hafter := Tracker.after_take S hr
      by_cases hstores : storesFrame S r.evt = true
      · obtain ⟨hw, hkind, hdepth, slot, hslot, hret⟩ := (storesFrame_iff S r.evt).mp hstores
        have hentry := (Machine.kind_of_ring S att acts r hmem).resolve_right hkind
        have hframes := handleEntry_frames_stored S r.env
          (Tracker.after S ((Machine.run S att acts).ring.take n)) r.evt hslot hret hdepth
        rw [handleEvent_entry _ _ _ hw hentry] at hafter
        rw [if_pos hstores]
        by_cases hkey : key = r.evt.key
        · subst hkey
          rw [Function.update_self]
          refine ⟨n, r, slot, by omega, hr, hentry, rfl, rfl, hdepth, hslot, ?_⟩
          rw [hafter, hframes, Function.update_self]
        · rw [Function.update_of_ne hkey]
          apply (hold key).keep
          rw [hafter, hframes, Function.update_of_ne hkey]
      · rw [if_neg hstores]
        by_cases htakes : takesFrame S r.evt = true
        · have hframes := handleEvent_takes S r.env
            (Tracker.after S ((Machine.run S att acts).ring.take n)) r.evt htakes
          rw [if_pos htakes]
          by_cases hkey : key = r.evt.key
          · subst hkey
            rw [Function.update_self]
            change (Tracker.after S _).frames _ = none
            rw [hafter, hframes, Function.update_self]
          · rw [Function.update_of_ne hkey]
            apply (hold key).keep
            rw [hafter, hframes, Function.update_of_ne hkey]
        · rw [if_neg htakes]
          apply (hold key).keep
          rw [hafter, Machine.frames_kept hmem (hold r.evt.key).eq_none hstores htakes]

/-! ### Returns paired with their own calls -/

/-- Every return record is answered with the frame of its own call. -/
def PairsOwn (S : Session) (recs : List Record) : Prop :=
  ∀ j r, recs[j]? = some r → r.evt.kind = 1 → watched S.cfg r.evt.tid = true →
    pairedWith S (recs.take j) r = some r.call

section Answered

variable {S : Session} {att : Attachment} {acts : List Action}

/-- A return record paired with its own call completes the call, at the key of
its entry, and finds the frame stored for it. -/
theorem answered_of_paired {j : Nat} {r : Record}
    (hr : (Machine.run S att acts).ring[j]? = some r)
    (hpaired : pairedWith S ((Machine.run S att acts).ring.take j) r = some r.call) :
    ∃ i e slot, i < j ∧ Completed S (Machine.run S att acts).ring i j e r slot ∧
      e.evt.key = r.evt.key ∧ 0 ≤ r.evt.depth ∧ watched S.cfg r.evt.tid = true ∧
      (Tracker.after S ((Machine.run S att acts).ring.take j)).frames r.evt.key =
        some (storedFrame S e.env e.evt slot
          (Tracker.after S ((Machine.run S att acts).ring.take i)).caches) := by
  unfold pairedWith at hpaired
  split at hpaired
  · rename_i htakes
    simp only [takesFrame, Bool.and_eq_true, decide_eq_true_eq] at htakes
    obtain ⟨⟨hw, hkind⟩, hdepth⟩ := htakes
    obtain ⟨hlt, -⟩ := List.getElem?_eq_some_iff.mp hr
    have hframe := frameOf_provenance S att acts j hlt.le r.evt.key
    rw [hpaired] at hframe
    obtain ⟨i, e, slot, hi, he, hentry, hcall, hkey, -, hslot, hfound⟩ := hframe
    exact ⟨i, e, slot, hi, ⟨he, hr, hentry, hkind, hcall, hslot⟩, hkey, hdepth, hw, hfound⟩
  · cases hpaired

/-- An entry record leaves the caches alone; a return record paired with its
own call teaches what this call teaches. -/
theorem PairsOwn.caches_step (h : PairsOwn S (Machine.run S att acts).ring) {n : Nat} {r : Record}
    (hr : (Machine.run S att acts).ring[n]? = some r) (hw : watched S.cfg r.evt.tid = true) :
    (r.evt.kind ≠ 1 ∧ (Tracker.after S ((Machine.run S att acts).ring.take (n + 1))).caches =
      (Tracker.after S ((Machine.run S att acts).ring.take n)).caches) ∨
    ∃ i e slot, i < n ∧ Completed S (Machine.run S att acts).ring i n e r slot ∧
      (Tracker.after S ((Machine.run S att acts).ring.take (n + 1))).caches =
        learn r.env.mr (storedFrame S e.env e.evt slot
          (Tracker.after S ((Machine.run S att acts).ring.take i)).caches) r.evt.rc
          (Tracker.after S ((Machine.run S att acts).ring.take n)).caches := by
  rw [Tracker.after_take S hr]
  by_cases hkind : r.evt.kind = 1
  · right
    obtain ⟨i, e, slot, hi, hcall, -, hdepth, -, hfound⟩ :=
      answered_of_paired hr (h n r hr hkind hw)
    refine ⟨i, e, slot, hi, hcall, ?_⟩
    rw [handleEvent_return _ _ _ hw hkind, handleReturn_found S r.env _ _ hdepth hfound]
  · left
    refine ⟨hkind, ?_⟩
    simp only [handleEvent, hw, hkind, Bool.not_true, Bool.false_eq_true, if_false]
    exact handleEntry_caches S r.env _ r.evt

end Answered

section StoredFrame

variable (S : Session) (env : Env) (e : Evt) (slot : Nat) (cs : Caches)

@[simp] theorem storedFrame_slot : (storedFrame S env e slot cs).slot = slot := rfl

@[simp] theorem storedFrame_a1 : (storedFrame S env e slot cs).a1 = (e.a.get 1) := rfl

@[simp] theorem storedFrame_a2 : (storedFrame S env e slot cs).a2 = (e.a.get 2) := rfl

@[simp] theorem storedFrame_a3 : (storedFrame S env e slot cs).a3 = (e.a.get 3) := rfl

end StoredFrame

end JniProbe
