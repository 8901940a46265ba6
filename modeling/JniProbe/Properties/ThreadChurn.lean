import JniProbe.Properties.EntryReturn

/-!
Threads that come and go. The `depth` map keeps a key for every thread id it
ever accepted, so a long session runs out of keys. The tracer stays right
exactly as long as no thread without a key nests tracked calls.
-/

namespace JniProbe

open GoText HeightSlots

/-- What is owed to a tracked call at a step: the record of its entry carries
the number of tracked calls open around it, and so does the record of its
return, which is answered with the frame of the call itself. -/
def TracksCall (S : Session) (m : Machine) : Action → Prop
  | .enter tid off hit => S.tracked off = true →
    ∀ r, (Machine.enter S .all m tid off hit).ring = m.ring ++ [r] →
      r.evt.depth.toInt = ((m.openTracked S tid).length : Int)
  | .leave tid hit => ∀ call rest r, m.callStacks tid = call :: rest →
    (Machine.leave S .all m tid hit).ring = m.ring ++ [r] →
      r.evt.depth.toInt = (((Machine.leave S .all m tid hit).openTracked S tid).length : Int) ∧
      (watched S.cfg tid = true → pairedWith S m.ring r = some call.id)

section Steps

variable {S : Session} {m : Machine} {tid : UInt32} {off : UInt64} {hit : Hit}

/-- The entry of a tracked call is right about its depth if and only if
`hasret` has the offset and the counter is the number of calls around it, as a
signed number. -/
theorem tracksCall_enter (htracked : S.tracked off = true) (hres : hit.reserved.isSome = true) :
    TracksCall S m (.enter tid off hit) ↔ S.hasret off = true ∧
      (DepthMap.count m.depth tid).toInt32.toInt = ((m.openTracked S tid).length : Int) := by
  obtain ⟨raw, hraw⟩ := Option.isSome_iff_exists.mp hres
  have hlive : S.entryLive .all off = true := by
    simpa [S.entryLive_all] using S.mem_offsets_of_tracked htracked
  have hring : (Machine.enter S .all m tid off hit).ring =
      m.ring ++ [Machine.enterRecord S m tid off hit raw] := by
    rw [Machine.enter_recorded raw hlive hraw]
  have hdepth : (Machine.enterRecord S m tid off hit raw).evt.depth =
      if S.hasret off then (DepthMap.count m.depth tid).toInt32 else -1 :=
    Machine.entryEvt_depth_at _ _
  constructor
  · intro h
    have hright := h htracked _ hring
    rw [hdepth] at hright
    cases hhas : S.hasret off with
    | true =>
        rw [hhas, if_pos rfl] at hright
        exact ⟨rfl, hright⟩
    | false =>
        rw [hhas] at hright
        have hneg : (-1 : Int32).toInt = -1 := by decide
        simp only [Bool.false_eq_true, if_false, hneg] at hright
        omega
  · rintro ⟨hhas, hcount⟩ - r hr
    rw [hring] at hr
    obtain rfl : Machine.enterRecord S m tid off hit raw = r := by simpa using hr
    rw [hdepth, if_pos hhas, hcount]

theorem Counted.tracks_enter (h : Counted S m) (hres : hit.reserved.isSome = true)
    (hcovers : Machine.Covers S m (.enter tid off hit)) : TracksCall S m (.enter tid off hit) := by
  intro htracked
  obtain ⟨hhas, hfit, hkey⟩ := hcovers htracked
  have hcount : _ = (m.openTracked S tid).length := h.at_entry hkey
  refine (tracksCall_enter htracked hres).mpr ⟨hhas, ?_⟩ htracked
  rw [toInt32_toInt, if_pos (by omega), hcount]

theorem Counted.tracks_leave (h : Counted S m) (hres : hit.reserved.isSome = true) :
    TracksCall S m (.leave tid hit) := by
  intro call rest r hstack hring
  obtain ⟨raw, hraw⟩ := Option.isSome_iff_exists.mp hres
  cases htracked : S.tracked call.off with
  | false =>
      rw [Machine.leave_silent hstack (by simp [S.returnLive_all, htracked])] at hring
      simp at hring
  | true =>
      have hlive : S.returnLive .all call.off = true := by rw [S.returnLive_all, htracked]
      have hbefore := Machine.openTracked_of_stack S .all hit hstack
      rw [htracked, if_pos rfl] at hbefore
      have hdrop : _ = (m.openTracked S tid).length := h.at_return (by simp [hbefore])
      have hfit := h.fits tid
      have hlen := congrArg List.length hbefore
      rw [List.length_append, List.length_singleton] at hlen
      have hrec : (Machine.leave S .all m tid hit).ring =
          m.ring ++ [Machine.leaveRecord m tid hit call.id raw] := by
        rw [Machine.leave_recorded raw hstack hlive hraw]
      rw [hrec] at hring
      obtain rfl : Machine.leaveRecord m tid hit call.id raw = r := by simpa using hring
      refine ⟨?_, h.paired_return hit raw hstack htracked⟩
      have hdepth : (Machine.leaveRecord m tid hit call.id raw).evt.depth =
        (Machine.dropOne (DepthMap.count m.depth tid)).toInt32 := rfl
      rw [hdepth, toInt32_toInt, if_pos (by omega)]
      omega

/-- A right depth at the entry of a tracked call needs the step to be covered. -/
theorem TracksCall.covers {a : Action} (h : TracksCall S m a)
    (hres : a.hit.reserved.isSome = true) : Machine.Covers S m a := by
  cases a with
  | leave tid hit => trivial
  | enter tid off hit =>
      intro htracked
      obtain ⟨hhas, hcount⟩ := (tracksCall_enter htracked hres).mp h
      rw [toInt32_toInt] at hcount
      split at hcount
      · refine ⟨hhas, by omega, ?_⟩
        intro hopen
        by_contra hnot
        have hpos := List.length_pos_of_ne_nil hopen
        rw [DepthMap.count_of_not_mem hnot, UInt32.toNat_zero] at hcount
        omega
      · have hlt := (DepthMap.count m.depth tid).toNat_lt
        omega

end Steps

/-- In a run without losses, with any number of threads, every tracked call is
tracked right at every step if and only if every step is covered: the entry of
a tracked call inside another needs a key of the `depth` map for its thread. -/
theorem thread_churn_iff (S : Session) (acts : List Action)
    (hreserved : ∀ a ∈ acts, a.hit.reserved.isSome = true) :
    Runs.Along (Machine.step S .all) (TracksCall S) Machine.start acts ↔
      Runs.Along (Machine.step S .all) (Machine.Covers S) Machine.start acts := by
  constructor
  · intro h
    rw [Runs.along_iff_prefix] at h ⊢
    intro before a hwithin
    exact (h before a hwithin).covers (hreserved a (hwithin.subset (by simp)))
  · intro h
    have hcovered : Covered S acts := ⟨hreserved, h⟩
    rw [Runs.along_iff_prefix] at h ⊢
    intro before a hwithin
    have hcounted := (hcovered.of_prefix ((List.prefix_append _ _).trans hwithin)).counted
    have hres := hreserved a (hwithin.subset (by simp))
    cases a with
    | enter tid off hit => exact hcounted.tracks_enter hres (h before _ hwithin)
    | leave tid hit => exact hcounted.tracks_leave hres

/-! ### A session that has seen 4096 threads -/

namespace Scenario

/-- The threads `0 … n - 1`, one after the other, make one tracked call each. -/
def visits (n : Nat) : List Action :=
  (List.range n).flatMap (fun i =>
    [.enter (UInt32.ofNat i) 0 plainHit, .leave (UInt32.ofNat i) plainHit])

/-- After them one more thread makes a tracked call inside a tracked call. -/
def nestedVisit : List Action :=
  [.enter 4096 0 plainHit, .enter 4096 0 plainHit, .leave 4096 plainHit, .leave 4096 plainHit]

theorem reserved_nestedVisit : ∀ a ∈ nestedVisit, a.hit.reserved.isSome = true := by
  simp [nestedVisit, Action.hit, plainHit, hit]

theorem hasret_oneOffset : oneOffset.hasret 0 = true := by
  rw [Session.hasret_iff, oneOffset, retOffsets_manyOffsets]
  simp

theorem tracked_oneOffset : oneOffset.tracked 0 = true :=
  oneOffset.tracked_of_hasret hasret_oneOffset

theorem entryLive_oneOffset : oneOffset.entryLive .all 0 = true := by
  rw [oneOffset.entryLive_all, decide_eq_true_eq]
  exact oneOffset.mem_offsets_of_tracked tracked_oneOffset

theorem returnLive_oneOffset : oneOffset.returnLive .all 0 = true := by
  rw [oneOffset.returnLive_all, tracked_oneOffset]

/-- A new thread that finds room leaves its key behind and nothing else. -/
theorem visit_step (m : Machine) (t : UInt32) (hroom : m.depth.entries.keys.length < 4096)
    (hnew : t ∉ m.depth.entries) (hidle : ∀ t', m.callStacks t' = []) (m' : Machine)
    (hm' : m' = Machine.leave oneOffset .all (Machine.enter oneOffset .all m t 0 plainHit) t
      plainHit) :
    m'.depth.entries.keys.length = m.depth.entries.keys.length + 1 ∧
      (∀ t', t' ∈ m'.depth.entries ↔ t' = t ∨ t' ∈ m.depth.entries) ∧
      ∀ t', m'.callStacks t' = [] := by
  have hacc : m.depth.Accepts t := Or.inr hroom
  have hentered : Machine.enter oneOffset .all m t 0 plainHit = _ :=
    Machine.enter_recorded blank entryLive_oneOffset rfl
  generalize Machine.enter oneOffset .all m t 0 plainHit = n at hentered hm'
  have hdepth : n.depth = m.depth.update t (DepthMap.count m.depth t + 1) := by
    rw [hentered, if_pos hasret_oneOffset]
  have hstacks : n.callStacks = Function.update m.callStacks t
      (⟨m.next, 0, Machine.counts oneOffset .all m t 0 plainHit⟩ :: m.callStacks t) := by
    rw [hentered]
  have hmem : t ∈ n.depth.entries := by
    rw [hdepth, BoundedMap.mem_update _ _ _ _ hacc]
    exact Or.inl rfl
  have hleft : Machine.leave oneOffset .all n t plainHit = _ :=
    Machine.leave_recorded blank (by rw [hstacks, Function.update_self]) returnLive_oneOffset rfl
  rw [hm', hleft]
  refine ⟨?_, ?_, ?_⟩
  · dsimp only
    rw [BoundedMap.length_update _ _ _ (Or.inl hmem), if_pos hmem, hdepth,
      BoundedMap.length_update _ _ _ hacc, if_neg hnew]
  · intro t'
    dsimp only
    rw [BoundedMap.mem_update _ _ _ _ (Or.inl hmem), hdepth, BoundedMap.mem_update _ _ _ _ hacc]
    tauto
  · intro t'
    dsimp only
    rw [hstacks]
    by_cases ht : t' = t
    · subst ht
      rw [Function.update_self]
      exact hidle t'
    · rw [Function.update_of_ne ht, Function.update_of_ne ht]
      exact hidle t'

/-- The visitors take one key each. -/
theorem visits_run (n : Nat) (hn : n ≤ 4096) :
    (Machine.run oneOffset .all (visits n)).depth.entries.keys.length = n ∧
      (∀ t, t ∈ (Machine.run oneOffset .all (visits n)).depth.entries ↔ t.toNat < n) ∧
      ∀ t, (Machine.run oneOffset .all (visits n)).callStacks t = [] := by
  induction n with
  | zero =>
      refine ⟨rfl, ?_, fun t => rfl⟩
      intro t
      simp [visits, Machine.run, Machine.start, BoundedMap.mem_iff_lookup]
  | succ n ih =>
      obtain ⟨hlen, hmem, hidle⟩ := ih (by omega)
      have hnat : (UInt32.ofNat n).toNat = n := by
        rw [UInt32.toNat_ofNat']
        omega
      have hsplit : visits (n + 1) = visits n ++
          [.enter (UInt32.ofNat n) 0 plainHit, .leave (UInt32.ofNat n) plainHit] := by
        simp [visits, List.range_succ]
      have hrun : Machine.run oneOffset .all (visits (n + 1)) =
          Machine.leave oneOffset .all (Machine.enter oneOffset .all
            (Machine.run oneOffset .all (visits n)) (UInt32.ofNat n) 0 plainHit)
            (UInt32.ofNat n) plainHit := by
        rw [hsplit]
        exact Runs.run_append _ _ _ _
      have hnew : UInt32.ofNat n ∉ (Machine.run oneOffset .all (visits n)).depth.entries := by
        rw [hmem, hnat]
        omega
      obtain ⟨hlen', hmem', hidle'⟩ := visit_step _ _ (by omega) hnew hidle _ hrun
      refine ⟨by omega, ?_, hidle'⟩
      intro t
      rw [hmem', hmem, ← UInt32.toNat_inj, hnat]
      omega

/-- A thread without a counter enters a tracked call inside a tracked call:
the inner entry shows depth zero, and its return takes away the one frame there
is, so that the outer return finds none. -/
theorem nestedVisit_lost (m : Machine) (hfull : ¬ m.depth.Accepts 4096)
    (hidle : m.callStacks 4096 = []) :
    ¬ Runs.Along (Machine.step oneOffset .all) (TracksCall oneOffset) m nestedVisit ∧
      ∃ before r, (Runs.run (Machine.step oneOffset .all) m nestedVisit).ring = before ++ [r] ∧
        r.evt.kind = 1 ∧ pairedWith oneOffset before r = none := by
  have hzero : DepthMap.count m.depth 4096 = 0 :=
    DepthMap.count_of_not_mem (fun hmem => hfull (Or.inl hmem))
  have hkept (v : UInt32) : m.depth.update 4096 v = m.depth :=
    BoundedMap.update_of_not_accepts _ _ _ hfull
  simp only [nestedVisit, Runs.run_cons, Runs.run_nil, Machine.step]
  have houter : Machine.enter oneOffset .all m 4096 0 plainHit = _ :=
    Machine.enter_recorded blank entryLive_oneOffset rfl
  rw [if_pos hasret_oneOffset, hkept, hidle] at houter
  have hopen : (Machine.enter oneOffset .all m 4096 0 plainHit).openTracked oneOffset 4096 = _ :=
    Machine.openTracked_enter_self
  have hnone : m.openTracked oneOffset 4096 = [] := by simp [Machine.openTracked, hidle]
  rw [tracked_oneOffset, hnone, if_pos rfl, List.nil_append] at hopen
  refine ⟨?_, ?_⟩
  · rintro ⟨-, hinner, -⟩
    simp only [Machine.step] at hinner
    rw [tracksCall_enter tracked_oneOffset rfl, hopen, houter] at hinner
    have hcount := hinner.2
    dsimp only at hcount
    rw [hzero] at hcount
    cases hcount
  · generalize Machine.enter oneOffset .all m 4096 0 plainHit = m₁ at houter
    have hinner : Machine.enter oneOffset .all m₁ 4096 0 plainHit = _ :=
      Machine.enter_recorded blank entryLive_oneOffset rfl
    have hdepth₁ : m₁.depth = m.depth := by rw [houter]
    rw [if_pos hasret_oneOffset, hdepth₁, hkept] at hinner
    generalize Machine.enter oneOffset .all m₁ 4096 0 plainHit = m₂ at hinner
    obtain ⟨outer, hstack₁⟩ : ∃ c, m₁.callStacks =
        Function.update m.callStacks 4096 [⟨m.next, 0, c⟩] := ⟨_, by rw [houter]⟩
    obtain ⟨inner, hstack₂⟩ : ∃ c, m₂.callStacks =
        Function.update m₁.callStacks 4096 (⟨m₁.next, 0, c⟩ :: m₁.callStacks 4096) :=
      ⟨_, by rw [hinner]⟩
    rw [hstack₁, Function.update_self] at hstack₂
    have hdepth₂ : m₂.depth = m.depth := by rw [hinner]
    have hback : Machine.leave oneOffset .all m₂ 4096 plainHit = _ :=
      Machine.leave_recorded blank (by rw [hstack₂, Function.update_self]) returnLive_oneOffset rfl
    rw [hdepth₂, hkept, hzero] at hback
    generalize Machine.leave oneOffset .all m₂ 4096 plainHit = m₃ at hback
    have hstack₃ : m₃.callStacks = Function.update m₂.callStacks 4096 [⟨m.next, 0, outer⟩] := by
      rw [hback]
    have hdepth₃ : m₃.depth = m.depth := by rw [hback]
    have hlast : Machine.leave oneOffset .all m₃ 4096 plainHit = _ :=
      Machine.leave_recorded blank (by rw [hstack₃, Function.update_self]) returnLive_oneOffset rfl
    rw [hdepth₃, hzero] at hlast
    have hdrop : Machine.dropOne 0 = 0 := by decide
    have hwatched : watched oneOffset.cfg 4096 = true := rfl
    have hring₃ : m₃.ring = m₂.ring ++ [⟨returnEvt (Machine.dropOne 0)
        (Machine.returnCtx 4096 plainHit) blank, plainHit.env, m₁.next⟩] := by
      rw [hback]
    refine ⟨m₃.ring, _, by rw [hlast], rfl, ?_⟩
    rw [pairedWith_return, hring₃, provenance_concat, provenanceStep_return, hdrop, hwatched]
    simp

end Scenario

open Scenario in
/-- One thread after another makes a tracked call, 4096 in all; the next thread
makes one inside another. -/
theorem full_depth_map_misplaces :
    (∀ a ∈ visits 4096 ++ nestedVisit, a.hit.reserved.isSome = true) ∧
      oneOffset.cfg.tid = 0 ∧
      ¬ Runs.Along (Machine.step oneOffset .all) (TracksCall oneOffset) Machine.start
        (visits 4096 ++ nestedVisit) ∧
      ∃ before r, (Machine.run oneOffset .all (visits 4096 ++ nestedVisit)).ring =
        before ++ [r] ∧ r.evt.kind = 1 ∧ pairedWith oneOffset before r = none := by
  obtain ⟨hlen, hmem, hidle⟩ := visits_run 4096 (Nat.le_refl 4096)
  have hfull : ¬ (Machine.run oneOffset .all (visits 4096)).depth.Accepts 4096 := by
    rintro (hkey | hroom)
    · exact absurd ((hmem 4096).mp hkey) (by decide)
    · omega
  obtain ⟨hwrong, hlost⟩ := nestedVisit_lost _ hfull (hidle 4096)
  refine ⟨?_, rfl, ?_, ?_⟩
  · intro a ha
    rcases List.mem_append.mp ha with hvisit | hnested
    · obtain ⟨i, -, hi⟩ := List.mem_flatMap.mp hvisit
      rcases List.mem_pair.mp hi with rfl | rfl <;> rfl
    · exact reserved_nestedVisit a hnested
  · rw [Runs.along_append]
    exact fun hboth => hwrong hboth.2
  · simp only [Machine.run, Runs.run_append]
    exact hlost

open Scenario in
/-- A thread that nests its tracked calls while the map has room. -/
theorem thread_churn_iff_nested :
    Runs.Along (Machine.step oneOffset .all) (TracksCall oneOffset) Machine.start nestedVisit := by
  have hmonitored : Monitored oneOffset nestedVisit := by
    apply Monitored.of_short
    · simp [oneOffset, retOffsets_manyOffsets]
    · simp [nestedVisit]
    · exact reserved_nestedVisit
  exact (thread_churn_iff oneOffset nestedVisit reserved_nestedVisit).mpr hmonitored.covered.along

end JniProbe
