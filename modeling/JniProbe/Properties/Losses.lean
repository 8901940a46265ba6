import JniProbe.Properties.EntryReturn

/-!
Hits that are lost because the ring is full, and probes that could not be
attached. Both programs leave before they touch the depth map when the
reservation fails, and `hasret` is filled whether or not a probe is live, so
either can put the counter of a thread out of step with its calls. Each result
says for which runs this does not happen.
-/

namespace JniProbe

open GoText HeightSlots

/-! ### Lost records -/

/-- A step that tolerates what the ring loses: the return of a call whose entry
was counted is recorded, the return of a tracked call whose entry was lost is
not, unless the thread has no counted call open, and the counter does not wrap. -/
def ToleratesLoss (S : Session) (m : Machine) : Action → Prop
  | .enter tid off hit =>
    Machine.counts S .all m tid off hit = true → (m.counted tid).length + 1 < 2 ^ 32
  | .leave tid hit => ∀ call ∈ (m.callStacks tid).head?, S.tracked call.off = true →
    if call.counted then hit.reserved.isSome = true
    else hit.reserved.isSome = true → ∀ c ∈ (m.callStacks tid).tail, c.counted = false

instance (S : Session) (m : Machine) : ∀ a, Decidable (ToleratesLoss S m a)
  | .enter _ _ _ => inferInstanceAs (Decidable (_ → _))
  | .leave tid _ => inferInstanceAs (Decidable (∀ call ∈ (m.callStacks tid).head?, _ → _))

/-- A counted call is at a tracked offset. -/
theorem Machine.tracked_of_counted (S : Session) (att : Attachment) (acts : List Action) :
    ∀ tid, ∀ c ∈ (Machine.run S att acts).callStacks tid, c.counted = true →
      S.tracked c.off = true := by
  apply Machine.forall_open
  intro before tid off hit _ hcounts
  obtain ⟨-, -, hhas, -⟩ := Machine.counts_iff.mp hcounts
  exact S.tracked_of_hasret hhas

theorem ToleratesLoss.keeps {S : Session} {acts before : List Action} {a : Action}
    (hthreads : (acts.map Action.tid).dedup.length ≤ 4096) (hwithin : before ++ [a] <+: acts)
    (h : ToleratesLoss S (Machine.run S .all before) a) :
    Machine.Keeps S .all (Machine.run S .all before) a := by
  cases a with
  | enter tid off hit => exact h
  | leave tid hit =>
      intro call rest hstack
      have htracked := Machine.tracked_of_counted S .all before tid call (by simp [hstack])
      have hcall := h call (by simp [hstack])
      rw [hstack, List.tail_cons] at hcall
      rw [S.returnLive_all]
      split
      · rename_i hcounted
        rw [if_pos hcounted] at hcall
        exact ⟨htracked hcounted, hcall (htracked hcounted)⟩
      · rename_i hcounted
        rw [if_neg hcounted] at hcall
        intro hrec
        refine ⟨hcall hrec.1 hrec.2, ?_⟩
        apply Machine.accepts_of_threads S .all hthreads ((List.prefix_append _ _).trans hwithin)
        exact List.mem_map_of_mem (hwithin.subset (by simp : Action.leave tid hit ∈ _))

/-- Losses that are tolerated do no harm: every return record that finds a
frame finds the one of its own call, and a thread that has left all tracked
calls has its counter back at zero. -/
theorem losses_keep_pairing (S : Session) (acts : List Action)
    (hthreads : (acts.map Action.tid).dedup.length ≤ 4096)
    (h : Runs.Along (Machine.step S .all) (ToleratesLoss S) Machine.start acts) :
    ∀ before, before <+: acts → WellPaired S (Machine.run S .all before).ring ∧
      ∀ tid, (Machine.run S .all before).openTracked S tid = [] →
        DepthMap.count (Machine.run S .all before).depth tid = 0 := by
  intro before hbefore
  have hpaired : Paired S (Machine.run S .all before) := by
    apply paired_run
    rw [Runs.along_iff_prefix] at h ⊢
    intro first a hwithin
    exact (h first a (hwithin.trans hbefore)).keeps hthreads (hwithin.trans hbefore)
  refine ⟨hpaired.own, ?_⟩
  intro tid hnone
  have hcounted : (Machine.run S .all before).counted tid = [] := by
    unfold Machine.openTracked at hnone
    rw [List.map_eq_nil_iff, List.filter_eq_nil_iff] at hnone
    unfold Machine.counted
    rw [List.map_eq_nil_iff, List.filter_eq_nil_iff]
    intro c hc hcounted
    exact hnone c hc
      (Machine.tracked_of_counted S .all before tid c (List.mem_reverse.mp hc) hcounted)
  apply UInt32.toNat_inj.mp
  rw [hpaired.counter, hcounted]
  rfl

namespace Scenario

/-- Two nested calls, the return of the inner one lost. -/
def lostReturnRun : List Action :=
  [.enter 1 0 plainHit, .enter 1 0 plainHit, .leave 1 (lostHit (Vector.replicate 5 0) none),
    .leave 1 plainHit]

/-- A call whose entry is lost, then one that is recorded. -/
def lostEntryRun : List Action :=
  [.enter 1 0 (lostHit (Vector.replicate 5 0) none), .leave 1 plainHit, .enter 1 0 plainHit,
    .leave 1 plainHit]

end Scenario

open Scenario in
/-- A lost entry outside any tracked call is tolerated. -/
theorem losses_keep_pairing_lostEntry :
    WellPaired oneOffset (Machine.run oneOffset .all lostEntryRun).ring := by
  have htolerated : Runs.Along (Machine.step oneOffset .all) (ToleratesLoss oneOffset)
      Machine.start lostEntryRun := by
    decide +kernel
  exact (losses_keep_pairing oneOffset lostEntryRun (by decide) htolerated _ List.prefix_rfl).1

theorem WellPaired.at {S : Session} {recs : List Record} (h : WellPaired S recs) (n : Nat)
    (r : Record) (hr : recs[n]? = some r) (id : Nat)
    (hid : pairedWith S (recs.take n) r = some id) : id = r.call := by
  exact h (recs.take n) r (recs.drop (n + 1)) (split_at hr) id hid

/-- The record at position `n` of a stream is answered with the frame of call
`found` although it belongs to another call. -/
def mispairedAt (S : Session) (recs : List Record) (n found : Nat) : Bool :=
  match recs[n]? with
  | some r => decide (pairedWith S (recs.take n) r = some found) && decide (found ≠ r.call)
  | none => false

theorem not_wellPaired_of_mispairedAt {S : Session} {recs : List Record} (n found : Nat)
    (h : mispairedAt S recs n found = true) : ¬ WellPaired S recs := by
  intro hpaired
  unfold mispairedAt at h
  split at h
  · rename_i r hr
    simp only [Bool.and_eq_true, decide_eq_true_eq] at h
    exact h.2 (hpaired.at n r hr found h.1)
  · cases h

open Scenario in
/-- One lost return record: the outer call's return is answered with the inner
call's frame, and the counter stays raised. -/
theorem lost_return_mispairs :
    ¬ WellPaired oneOffset (Machine.run oneOffset .all lostReturnRun).ring ∧
      (Machine.run oneOffset .all lostReturnRun).openTracked oneOffset 1 = [] ∧
      DepthMap.count (Machine.run oneOffset .all lostReturnRun).depth 1 = 1 := by
  refine ⟨not_wellPaired_of_mispairedAt 2 1 ?_, ?_, ?_⟩
  · decide +kernel
  · decide +kernel
  · decide +kernel

/-! ### Missing probes -/

/-- The open calls of a thread whose return will be reported. -/
def Machine.reported (S : Session) (att : Attachment) (m : Machine) (tid : UInt32) : Nat :=
  (m.callStacks tid).countP (fun c => S.returnLive att c.off)

/-- An entry whose offset has a live return probe exactly when its entry probe
is live, `hasret` has the offset and the depth map has room for the thread. -/
def AttachmentMatches (S : Session) (att : Attachment) (m : Machine) : Action → Prop
  | .enter tid off _ =>
    ((S.entryLive att off = true ∧ S.hasret off = true ∧ m.depth.Accepts tid) ↔
      S.returnLive att off = true) ∧
    (S.returnLive att off = true → m.reported S att tid + 1 < 2 ^ 32)
  | .leave _ _ => True

instance (S : Session) (att : Attachment) (m : Machine) :
    ∀ a, Decidable (AttachmentMatches S att m a)
  | .enter _ _ _ => inferInstanceAs (Decidable (_ ∧ _))
  | .leave _ _ => isTrue trivial

section Attached

variable {S : Session} {att : Attachment}

theorem Machine.count_enter (m : Machine) (tid : UInt32) (off : UInt64) (hit : Hit) :
    DepthMap.count (Machine.enter S att m tid off hit).depth tid =
      if Machine.counts S att m tid off hit then DepthMap.count m.depth tid + 1
      else DepthMap.count m.depth tid := by
  by_cases hrec : S.entryLive att off = true ∧ hit.reserved.isSome = true
  · obtain ⟨raw, hraw⟩ := Option.isSome_iff_exists.mp hrec.2
    rw [Machine.enter_recorded raw hrec.1 hraw]
    have hcounts : Machine.counts S att m tid off hit = true ↔ _ := Machine.counts_iff
    by_cases hhas : S.hasret off = true
    · simp only [hhas, if_true]
      by_cases hacc : m.depth.Accepts tid
      · rw [if_pos (hcounts.mpr ⟨hrec.1, hrec.2, hhas, hacc⟩),
          DepthMap.count_update_self _ _ _ hacc]
      · rw [if_neg (fun hc => hacc (hcounts.mp hc).2.2.2),
          BoundedMap.update_of_not_accepts _ _ _ hacc]
    · rw [if_neg (fun hc => hhas (hcounts.mp hc).2.2.1)]
      simp only [hhas, Bool.false_eq_true, if_false]
  · have hc : ¬ Machine.counts S att m tid off hit = true := by
      rw [Machine.counts_iff]
      exact fun hc => hrec ⟨hc.1, hc.2.1⟩
    rw [if_neg hc, Machine.enter_silent hrec]

theorem Machine.reported_enter (m : Machine) (tid : UInt32) (off : UInt64) (hit : Hit) :
    (Machine.enter S att m tid off hit).reported S att tid =
      m.reported S att tid + (if S.returnLive att off then 1 else 0) := by
  simp [Machine.reported, Machine.stacks_enter, List.countP_cons]

/-- Where attachments match, the counted calls are the reported ones. -/
theorem counted_eq_returnLive {acts : List Action}
    (hreserved : ∀ a ∈ acts, a.hit.reserved.isSome = true)
    (h : Runs.Along (Machine.step S att) (AttachmentMatches S att) Machine.start acts) :
    ∀ tid, ∀ c ∈ (Machine.run S att acts).callStacks tid, c.counted = S.returnLive att c.off := by
  rw [Runs.along_iff_prefix] at h
  apply Machine.forall_open
  intro before tid off hit hwithin
  obtain ⟨hmatch, -⟩ := h before (.enter tid off hit) hwithin
  have hres := hreserved (.enter tid off hit) (hwithin.subset (by simp))
  rw [Bool.eq_iff_iff, Machine.counts_iff, ← hmatch]
  constructor
  · rintro ⟨hlive, -, hhas, hacc⟩
    exact ⟨hlive, hhas, hacc⟩
  · rintro ⟨hlive, hhas, hacc⟩
    exact ⟨hlive, hres, hhas, hacc⟩

theorem length_counted {acts : List Action}
    (hflags : ∀ tid, ∀ c ∈ (Machine.run S att acts).callStacks tid,
      c.counted = S.returnLive att c.off) (tid : UInt32) :
    ((Machine.run S att acts).counted tid).length =
      (Machine.run S att acts).reported S att tid := by
  unfold Machine.counted Machine.reported
  rw [List.length_map, ← List.countP_eq_length_filter, List.countP_reverse]
  apply List.countP_congr
  intro c hc
  rw [hflags tid c hc]

theorem AttachmentMatches.paired {acts : List Action}
    (hreserved : ∀ a ∈ acts, a.hit.reserved.isSome = true)
    (h : Runs.Along (Machine.step S att) (AttachmentMatches S att) Machine.start acts) :
    Paired S (Machine.run S att acts) := by
  apply paired_run
  rw [Runs.along_iff_prefix]
  intro before a hwithin
  have hbefore : before <+: acts := (List.prefix_append _ _).trans hwithin
  have hflags := counted_eq_returnLive (fun b hb => hreserved b (hbefore.subset hb))
    (h.of_prefix (Machine.step S att) hbefore)
  have hmatch := (Runs.along_iff_prefix _ _ _ _).mp h before a hwithin
  have hsame : Runs.run (Machine.step S att) Machine.start before = Machine.run S att before := rfl
  rw [hsame] at hmatch ⊢
  cases a with
  | enter tid off hit =>
      intro hcounts
      obtain ⟨hlive, -, hhas, hacc⟩ := Machine.counts_iff.mp hcounts
      rw [length_counted hflags]
      exact hmatch.2 (hmatch.1.mp ⟨hlive, hhas, hacc⟩)
  | leave tid hit =>
      intro call rest hstack
      rw [hflags tid call (by simp [hstack])]
      split
      · rename_i hlive
        exact ⟨hlive, hreserved (.leave tid hit) (hwithin.subset (by simp))⟩
      · rename_i hlive
        exact fun hboth => absurd hboth.1 hlive

end Attached

/-- For a run that loses nothing, under any attachment: every return record is
answered, if at all, with the frame of its own call and the depth of every
thread is the number of its reported calls, at every moment, exactly when the
probes match at every offset that the run enters. -/
theorem partial_attachment_iff (S : Session) (att : Attachment) (acts : List Action)
    (hreserved : ∀ a ∈ acts, a.hit.reserved.isSome = true) :
    (∀ before, before <+: acts → WellPaired S (Machine.run S att before).ring ∧
      ∀ tid, (DepthMap.count (Machine.run S att before).depth tid).toNat =
        (Machine.run S att before).reported S att tid) ↔
    Runs.Along (Machine.step S att) (AttachmentMatches S att) Machine.start acts := by
  constructor
  · intro h
    rw [Runs.along_iff_prefix]
    intro before a hwithin
    have hsame : Runs.run (Machine.step S att) Machine.start before = Machine.run S att before :=
      rfl
    rw [hsame]
    cases a with
    | leave tid hit => trivial
    | enter tid off hit =>
        have hold := (h before ((List.prefix_append _ _).trans hwithin)).2 tid
        have hnew := (h _ hwithin).2 tid
        have hres : hit.reserved.isSome = true :=
          hreserved (.enter tid off hit) (hwithin.subset (by simp))
        rw [Machine.run_concat] at hnew
        simp only [Machine.step, Machine.count_enter, Machine.reported_enter] at hnew
        generalize Machine.run S att before = m at hold hnew
        have hbound := (DepthMap.count m.depth tid).toNat_lt
        have hcounts : Machine.counts S att m tid off hit = true ↔
            S.entryLive att off = true ∧ S.hasret off = true ∧ m.depth.Accepts tid := by
          rw [Machine.counts_iff]
          simp [hres]
        rw [AttachmentMatches, ← hcounts]
        by_cases hc : Machine.counts S att m tid off hit = true
        · rw [if_pos hc, UInt32.toNat_add, UInt32.toNat_one, hold] at hnew
          by_cases hlive : S.returnLive att off = true
          · rw [if_pos hlive] at hnew
            simp only [hc, hlive, forall_const, true_and]
            omega
          · rw [if_neg hlive] at hnew
            omega
        · rw [if_neg hc, hold] at hnew
          by_cases hlive : S.returnLive att off = true
          · rw [if_pos hlive] at hnew
            omega
          · simp [hc, hlive]
  · intro h before hbefore
    have hreserved' := fun b hb => hreserved b (hbefore.subset hb)
    have hwithin := h.of_prefix (Machine.step S att) hbefore
    have hpaired := AttachmentMatches.paired hreserved' hwithin
    refine ⟨hpaired.own, ?_⟩
    intro tid
    rw [hpaired.counter, length_counted (counted_eq_returnLive hreserved' hwithin)]

namespace Scenario

def twoOffsets : Session := session (manyOffsets 2 (by decide))

/-- Everything attached but the return probe of offset 1. -/
def missingReturn : Attachment := ⟨fun _ => true, fun off => off ≠ 1⟩

/-- A call at `inner` made inside a call at offset 0. -/
def nestedRun (inner : UInt64) : List Action :=
  [.enter 1 0 plainHit, .enter 1 inner plainHit, .leave 1 plainHit, .leave 1 plainHit]

end Scenario

open Scenario in
/-- A return probe is missing although `hasret` has its offset: the outer
call's return is answered with the inner call's frame. -/
theorem missing_return_mispairs :
    (∀ a ∈ nestedRun 1, a.hit.reserved.isSome = true) ∧
      ¬ WellPaired twoOffsets (Machine.run twoOffsets missingReturn (nestedRun 1)).ring ∧
      DepthMap.count (Machine.run twoOffsets missingReturn (nestedRun 1)).depth 1 = 1 ∧
      (Machine.run twoOffsets missingReturn (nestedRun 1)).reported twoOffsets missingReturn 1 =
        0 := by
  refine ⟨by decide, not_wellPaired_of_mispairedAt 2 1 ?_, ?_, ?_⟩
  · decide +kernel
  · decide +kernel
  · decide +kernel

open Scenario in
/-- The same attachment does no harm to a run that stays at offset 0. -/
theorem partial_attachment_iff_elsewhere :
    WellPaired twoOffsets (Machine.run twoOffsets missingReturn (nestedRun 0)).ring := by
  have hmatches : Runs.Along (Machine.step twoOffsets missingReturn)
      (AttachmentMatches twoOffsets missingReturn) Machine.start (nestedRun 0) := by
    decide +kernel
  exact ((partial_attachment_iff twoOffsets missingReturn (nestedRun 0) (by decide)).mpr hmatches _
    List.prefix_rfl).1

end JniProbe
