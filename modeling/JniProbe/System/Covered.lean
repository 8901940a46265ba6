import JniProbe.System.Monitored

/-!
Runs in which the counters stay right. The `depth` map never loses a key, so
once it is full a new thread gets no counter; such a thread is still served
while it makes one tracked call at a time, because its counter then reads zero
whenever it should. Covered runs are those without losses in which no thread
without a counter nests tracked calls; every monitored run is one.
-/

namespace JniProbe

open GoText HeightSlots

/-! ### The open tracked calls after a step -/

namespace Machine

variable {S : Session} {att : Attachment} {m : Machine} {tid : UInt32} {off : UInt64} {hit : Hit}

theorem openTracked_enter_self : (enter S att m tid off hit).openTracked S tid =
    m.openTracked S tid ++ (if S.tracked off then [m.next] else []) := by
  unfold openTracked
  rw [stacks_enter, Function.update_self, List.reverse_cons, List.filter_append, List.map_append]
  congr 1
  cases htracked : S.tracked off <;> simp [htracked]

theorem openTracked_enter_ne {t : UInt32} (h : t ≠ tid) :
    (enter S att m tid off hit).openTracked S t = m.openTracked S t := by
  simp [openTracked, stacks_enter, Function.update_of_ne h]

theorem openTracked_of_stack (S : Session) (att : Attachment) (hit : Hit) {call : OpenCall}
    {rest : List OpenCall} (hstack : m.callStacks tid = call :: rest) :
    m.openTracked S tid = (leave S att m tid hit).openTracked S tid ++
      (if S.tracked call.off then [call.id] else []) := by
  unfold openTracked
  rw [stacks_leave hstack, Function.update_self, hstack, List.reverse_cons, List.filter_append,
    List.map_append]
  congr 1
  cases htracked : S.tracked call.off <;> simp [htracked]

theorem openTracked_leave_ne {t : UInt32} (h : t ≠ tid) :
    (leave S att m tid hit).openTracked S t = m.openTracked S t := by
  cases hstack : m.callStacks tid with
  | nil => rw [leave_idle hstack]
  | cons call rest => simp [openTracked, stacks_leave hstack, Function.update_of_ne h]

/-- A call that is not tracked leaves the open tracked calls of every thread. -/
theorem openTracked_enter_untracked (h : S.tracked off = false) (t : UInt32) :
    (enter S att m tid off hit).openTracked S t = m.openTracked S t := by
  by_cases ht : t = tid
  · subst ht
    simp [openTracked_enter_self, h]
  · exact openTracked_enter_ne ht

theorem openTracked_leave_untracked {call : OpenCall} {rest : List OpenCall}
    (hstack : m.callStacks tid = call :: rest) (h : S.tracked call.off = false) (t : UInt32) :
    (leave S att m tid hit).openTracked S t = m.openTracked S t := by
  by_cases ht : t = tid
  · subst ht
    rw [openTracked_of_stack S att hit hstack]
    simp [h]
  · exact openTracked_leave_ne ht

/-- Entering a tracked function of a thread that already has a tracked call
open needs a counter for the thread, a depth that a signed number can hold, and
the offset in `hasret`. -/
def Covers (S : Session) (m : Machine) : Action → Prop
  | .enter tid off _ => S.tracked off = true → S.hasret off = true ∧
      (m.openTracked S tid).length < 2 ^ 31 ∧
      (m.openTracked S tid ≠ [] → tid ∈ m.depth.entries)
  | .leave _ _ => True

end Machine

/-- Nothing is lost and every step is covered. -/
structure Covered (S : Session) (acts : List Action) : Prop where
  reserved : ∀ a ∈ acts, a.hit.reserved.isSome = true
  along : Runs.Along (Machine.step S .all) (Machine.Covers S) Machine.start acts

theorem Covered.of_prefix {S : Session} {acts before : List Action} (h : Covered S acts)
    (hwithin : before <+: acts) : Covered S before where
  reserved a ha := h.reserved a (hwithin.subset ha)
  along := h.along.of_prefix _ hwithin

/-! ### What a step does to a counter -/

theorem DepthMap.count_of_not_mem {depth : DepthMap} {tid : UInt32} (h : tid ∉ depth.entries) :
    DepthMap.count depth tid = 0 := by
  have hnone : depth.lookup tid = none := by
    simpa [BoundedMap.mem_iff_lookup] using h
  simp [DepthMap.count, hnone]

/-- A key after a counter is written: that of the thread, which then has the
value written, or one that was there, whose counter is the same. -/
theorem DepthMap.count_of_mem_update {depth : DepthMap} {tid v t : UInt32}
    (h : t ∈ (depth.update tid v).entries) :
    (t = tid ∧ DepthMap.count (depth.update tid v) t = v) ∨
      (t ≠ tid ∧ t ∈ depth.entries ∧
        DepthMap.count (depth.update tid v) t = DepthMap.count depth t) := by
  by_cases heq : t = tid
  · subst heq
    have hacc := BoundedMap.accepts_of_mem_update _ _ _ h
    exact Or.inl ⟨rfl, DepthMap.count_update_self _ _ _ hacc⟩
  · have hold := (BoundedMap.mem_of_mem_update _ _ _ _ h).resolve_left heq
    exact Or.inr ⟨heq, hold, DepthMap.count_update_ne _ _ heq⟩

/-- The counters of a covered run: a thread with a key counts its open tracked
calls, a thread without one has at most one open, and the records say which. -/
structure Counted (S : Session) (m : Machine) : Prop where
  counter : ∀ t, t ∈ m.depth.entries →
    (DepthMap.count m.depth t).toNat = (m.openTracked S t).length
  single : ∀ t, t ∉ m.depth.entries → (m.openTracked S t).length ≤ 1
  fits : ∀ t, (m.openTracked S t).length ≤ 2 ^ 31
  source : ∀ t d, provenance S m.ring (t.toInt32, d) =
    slots (watched S.cfg t) (m.openTracked S t) d

theorem counted_start (S : Session) : Counted S Machine.start where
  counter t h := by simp [Machine.start, BoundedMap.mem_iff_lookup] at h
  single t _ := by simp [Machine.start, Machine.openTracked]
  fits t := by simp [Machine.start, Machine.openTracked]
  source t d := by simp [Machine.start, Machine.openTracked, provenance, slots_nil]

section Step

variable {S : Session} {m : Machine} {tid : UInt32} {off : UInt64} {hit : Hit}

/-- At a covered entry the counter is the number of open tracked calls. -/
theorem Counted.at_entry (h : Counted S m)
    (hkey : m.openTracked S tid ≠ [] → tid ∈ m.depth.entries) :
    (DepthMap.count m.depth tid).toNat = (m.openTracked S tid).length := by
  by_cases hmem : tid ∈ m.depth.entries
  · exact h.counter tid hmem
  · have hnone : m.openTracked S tid = [] := by
      by_contra hopen
      exact hmem (hkey hopen)
    rw [DepthMap.count_of_not_mem hmem, hnone]
    rfl

/-- At the return of a tracked call the lowered counter is the number of the
tracked calls that stay open. -/
theorem Counted.at_return (h : Counted S m) (hopen : m.openTracked S tid ≠ []) :
    (Machine.dropOne (DepthMap.count m.depth tid)).toNat + 1 = (m.openTracked S tid).length := by
  have hpos := List.length_pos_of_ne_nil hopen
  rw [dropOne_toNat]
  by_cases hmem : tid ∈ m.depth.entries
  · rw [h.counter tid hmem]
    omega
  · have hone := h.single tid hmem
    rw [DepthMap.count_of_not_mem hmem, UInt32.toNat_zero]
    omega

/-- A step that leaves records, counters and open tracked calls alone. -/
theorem Counted.silent {m' : Machine} (h : Counted S m) (hring : m'.ring = m.ring)
    (hdepth : m'.depth = m.depth) (hcalls : ∀ t, m'.openTracked S t = m.openTracked S t) :
    Counted S m' where
  counter t ht := by
    rw [hdepth] at ht ⊢
    rw [hcalls]
    exact h.counter t ht
  single t ht := by
    rw [hdepth] at ht
    rw [hcalls]
    exact h.single t ht
  fits t := by
    rw [hcalls]
    exact h.fits t
  source t d := by
    rw [hring, hcalls]
    exact h.source t d

/-- An entry record of a slot that is not tracked carries no depth. -/
theorem Counted.enter_untracked (h : Counted S m) (htracked : S.tracked off = false)
    (hres : hit.reserved.isSome = true) : Counted S (Machine.enter S .all m tid off hit) := by
  have hcalls (t : UInt32) : (Machine.enter S .all m tid off hit).openTracked S t =
      m.openTracked S t := Machine.openTracked_enter_untracked htracked t
  have hhas : S.hasret off = false := S.hasret_of_untracked htracked
  obtain ⟨raw, hraw⟩ := Option.isSome_iff_exists.mp hres
  by_cases hlive : S.entryLive .all off = true
  · have hstep : Machine.enter S .all m tid off hit = _ := Machine.enter_recorded raw hlive hraw
    refine ⟨?_, ?_, ?_, ?_⟩
    · intro t ht
      rw [hcalls]
      rw [hstep] at ht ⊢
      simp only [hhas, Bool.false_eq_true, if_false] at ht ⊢
      exact h.counter t ht
    · intro t ht
      rw [hcalls]
      rw [hstep] at ht
      simp only [hhas, Bool.false_eq_true, if_false] at ht
      exact h.single t ht
    · intro t
      rw [hcalls]
      exact h.fits t
    · intro t d
      rw [hcalls, hstep]
      dsimp only
      rw [provenance_concat, provenanceStep_entry, hhas]
      exact h.source t d
  · have hsilent : Machine.enter S .all m tid off hit = _ :=
      Machine.enter_silent (by simp [hlive])
    exact h.silent (by rw [hsilent]) (by rw [hsilent]) hcalls

/-- An entry record of a tracked slot pushes a call under the old counter. -/
theorem Counted.enter_tracked (h : Counted S m) (htracked : S.tracked off = true)
    (hres : hit.reserved.isSome = true) (hcovers : Machine.Covers S m (.enter tid off hit)) :
    Counted S (Machine.enter S .all m tid off hit) := by
  obtain ⟨hhas, hfit, hkey⟩ := hcovers htracked
  obtain ⟨raw, hraw⟩ := Option.isSome_iff_exists.mp hres
  have hlive : S.entryLive .all off = true := by
    simpa [S.entryLive_all] using S.mem_offsets_of_tracked htracked
  have hself : (Machine.enter S .all m tid off hit).openTracked S tid = _ :=
    Machine.openTracked_enter_self
  have hother {t : UInt32} (ht : t ≠ tid) : (Machine.enter S .all m tid off hit).openTracked S t =
      m.openTracked S t := Machine.openTracked_enter_ne ht
  rw [htracked, if_pos rfl] at hself
  rw [Machine.enter_recorded raw hlive hraw, if_pos hhas] at hself hother ⊢
  have hcount := h.at_entry hkey
  generalize DepthMap.count m.depth tid = d at hcount hself hother ⊢
  refine ⟨?_, ?_, ?_, ?_⟩
  · intro t ht
    rcases DepthMap.count_of_mem_update ht with ⟨rfl, hnew⟩ | ⟨heq, hold, hsame⟩
    · rw [hself, hnew, UInt32.toNat_add, List.length_append]
      simp only [UInt32.toNat_one, List.length_singleton]
      omega
    · rw [hother heq, hsame]
      exact h.counter t hold
  · intro t ht
    have hnot : t ∉ m.depth.entries := fun hmem => ht (BoundedMap.mem_update_of_mem _ _ _ hmem)
    by_cases heq : t = tid
    · subst heq
      have hnone : m.openTracked S t = [] := by
        by_contra hopen
        exact hnot (hkey hopen)
      rw [hself, hnone]
      simp
    · rw [hother heq]
      exact h.single t hnot
  · intro t
    by_cases heq : t = tid
    · subst heq
      rw [hself, List.length_append, List.length_singleton]
      omega
    · rw [hother heq]
      exact h.fits t
  · intro t d'
    dsimp only
    rw [provenance_concat, provenanceStep_entry, hhas, Bool.true_and]
    exact slots_pushed toInt32_injective hcount hself hother (h.source t) d'

theorem Counted.enter (h : Counted S m) (hres : hit.reserved.isSome = true)
    (hcovers : Machine.Covers S m (.enter tid off hit)) :
    Counted S (Machine.enter S .all m tid off hit) := by
  cases htracked : S.tracked off with
  | false => exact h.enter_untracked htracked hres
  | true => exact h.enter_tracked htracked hres hcovers

/-- A return record pops the call under the lowered counter. -/
theorem Counted.leave_tracked (h : Counted S m) (hres : hit.reserved.isSome = true)
    {call : OpenCall} {rest : List OpenCall} (hstack : m.callStacks tid = call :: rest)
    (htracked : S.tracked call.off = true) : Counted S (Machine.leave S .all m tid hit) := by
  obtain ⟨raw, hraw⟩ := Option.isSome_iff_exists.mp hres
  have hlive : S.returnLive .all call.off = true := by rw [S.returnLive_all, htracked]
  have hbefore := Machine.openTracked_of_stack S .all hit hstack
  have hother {t : UInt32} (ht : t ≠ tid) : (Machine.leave S .all m tid hit).openTracked S t =
      m.openTracked S t := Machine.openTracked_leave_ne ht
  obtain ⟨below, hbelow⟩ : ∃ below, (Machine.leave S .all m tid hit).openTracked S tid = below :=
    ⟨_, rfl⟩
  rw [htracked, if_pos rfl, hbelow] at hbefore
  have hdrop : _ = (m.openTracked S tid).length := h.at_return (by simp [hbefore])
  rw [hbefore, List.length_append, List.length_singleton] at hdrop
  rw [Machine.leave_recorded raw hstack hlive hraw] at hbelow hother ⊢
  generalize Machine.dropOne (DepthMap.count m.depth tid) = nd at hdrop hbelow hother ⊢
  have hnd : nd.toNat = below.length := by omega
  refine ⟨?_, ?_, ?_, ?_⟩
  · intro t ht
    rcases DepthMap.count_of_mem_update ht with ⟨rfl, hnew⟩ | ⟨heq, hold, hsame⟩
    · rw [hbelow, hnew, hnd]
    · rw [hother heq, hsame]
      exact h.counter t hold
  · intro t ht
    have hnot : t ∉ m.depth.entries := fun hmem => ht (BoundedMap.mem_update_of_mem _ _ _ hmem)
    have hone := h.single t hnot
    by_cases heq : t = tid
    · subst heq
      rw [hbefore, List.length_append, List.length_singleton] at hone
      rw [hbelow]
      omega
    · rwa [hother heq]
  · intro t
    have hle := h.fits t
    by_cases heq : t = tid
    · subst heq
      rw [hbefore, List.length_append, List.length_singleton] at hle
      rw [hbelow]
      omega
    · rwa [hother heq]
  · intro t d
    dsimp only
    rw [provenance_concat, provenanceStep_return]
    exact slots_popped toInt32_injective (hnd.trans (congrArg List.length hbelow.symm))
      (hbefore.trans (congrArg (· ++ [call.id]) hbelow.symm)) hother (h.source t) d

/-- The return record of a tracked call is answered with the frame of the call. -/
theorem Counted.paired_return (h : Counted S m) (hit : Hit) (raw : Evt)
    {call : OpenCall} {rest : List OpenCall} (hstack : m.callStacks tid = call :: rest)
    (htracked : S.tracked call.off = true) (hw : watched S.cfg tid = true) :
    pairedWith S m.ring ⟨returnEvt (Machine.dropOne (DepthMap.count m.depth tid))
      (Machine.returnCtx tid hit) raw, hit.env, call.id⟩ = some call.id := by
  have hbefore := Machine.openTracked_of_stack S .all hit hstack
  rw [htracked, if_pos rfl] at hbefore
  have hdrop : _ = (m.openTracked S tid).length := h.at_return (by simp [hbefore])
  have hfit := h.fits tid
  have hlt : (Machine.dropOne (DepthMap.count m.depth tid)).toNat < 2 ^ 31 := by omega
  have hlast : (m.openTracked S tid)[(Machine.dropOne (DepthMap.count m.depth tid)).toNat]? =
      some call.id := by
    rw [hbefore, List.length_append, List.length_singleton] at hdrop
    rw [hbefore, List.getElem?_append_right (by omega)]
    simp [show (Machine.dropOne (DepthMap.count m.depth tid)).toNat =
      ((Machine.leave S .all m tid hit).openTracked S tid).length by omega]
  rw [pairedWith_return, hw, Bool.true_and, if_pos (by simpa using hlt), h.source, hw,
    slots_of_lt _ _ _ hlt, if_pos rfl, hlast]

theorem Counted.leave (h : Counted S m) (hres : hit.reserved.isSome = true) :
    Counted S (Machine.leave S .all m tid hit) := by
  cases hstack : m.callStacks tid with
  | nil =>
      rw [Machine.leave_idle hstack]
      exact h
  | cons call rest =>
      cases htracked : S.tracked call.off with
      | true => exact h.leave_tracked hres hstack htracked
      | false =>
          have hsilent : Machine.leave S .all m tid hit = _ :=
            Machine.leave_silent hstack (by simp [S.returnLive_all, htracked])
          apply h.silent (by rw [hsilent]) (by rw [hsilent])
          exact Machine.openTracked_leave_untracked hstack htracked

end Step

/-! ### Whole runs -/

theorem Covered.counted {S : Session} {acts : List Action} (h : Covered S acts) :
    Counted S (Machine.run S .all acts) := by
  induction acts using List.reverseRecOn with
  | nil => exact counted_start S
  | append_singleton acts a ih =>
      have hold := ih (h.of_prefix (List.prefix_append _ _))
      have hres := h.reserved a (by simp)
      have hcovers := ((Runs.along_concat _ _ _ _ _).mp h.along).2
      rw [Machine.run_concat]
      cases a with
      | enter tid off hit => exact hold.enter hres hcovers
      | leave tid hit => exact hold.leave hres

/-- A monitored run is covered: each of its threads has a key or finds room. -/
theorem Monitored.covered {S : Session} {acts : List Action} (h : Monitored S acts) :
    Covered S acts where
  reserved := h.reserved
  along := by
    rw [Runs.along_iff_prefix]
    intro before a hwithin
    have hsame : Runs.run (Machine.step S .all) Machine.start before =
        Machine.run S .all before := rfl
    rw [hsame]
    cases a with
    | leave tid hit => trivial
    | enter tid off hit =>
        intro htracked
        have hbefore := h.of_prefix ((List.prefix_append _ _).trans hwithin)
        have hnest := (h.of_prefix hwithin).nesting _ List.prefix_rfl tid
        have hopen : (Machine.enter S .all (Machine.run S .all before) tid off hit).openTracked S
            tid = _ := Machine.openTracked_enter_self
        rw [Machine.run_concat] at hnest
        simp only [Machine.step] at hnest
        rw [hopen, htracked, if_pos rfl, List.length_append, List.length_singleton] at hnest
        refine ⟨by rw [S.hasret_eq_tracked h.offsets, htracked], by omega, ?_⟩
        intro hnonempty
        have hcount := hbefore.paired.counter tid
        rw [hbefore.counted_eq] at hcount
        by_contra hnot
        rw [DepthMap.count_of_not_mem hnot, UInt32.toNat_zero] at hcount
        have hpos := List.length_pos_of_ne_nil hnonempty
        omega

end JniProbe
