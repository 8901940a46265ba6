import JniProbe.System.CallStack

/-!
Runs in which nothing is lost: every probe attached, every reservation
successful, and the maps of the BPF side never full. In such a run the frames
map is the stack of pending calls laid out under depths, so the tracer does
what the stack tracer does.
-/

namespace JniProbe

open GoText HeightSlots

/-- `runProbe` asks for a return probe at this offset. -/
def Session.tracked (S : Session) (off : UInt64) : Bool := S.retOffsets.contains off

/-- The tracked calls open on a thread, outermost first. -/
def Machine.openTracked (S : Session) (m : Machine) (tid : UInt32) : List Nat :=
  ((m.callStacks tid).reverse.filter (fun c => S.tracked c.off)).map (·.id)

/-- No reservation fails and the depth map has room for every thread. -/
structure Lossless (acts : List Action) : Prop where
  threads : (acts.map Action.tid).dedup.length ≤ 4096
  reserved : ∀ a ∈ acts, a.hit.reserved.isSome = true

/-- Nor is any other bound reached: the room for tracked offsets, and the
depths that a signed 32-bit number can hold. -/
structure Monitored (S : Session) (acts : List Action) : Prop extends Lossless acts where
  offsets : S.retOffsets.length ≤ 8192
  nesting : ∀ before, before <+: acts → ∀ tid,
    ((Machine.run S .all before).openTracked S tid).length ≤ 2 ^ 31

theorem Monitored.of_prefix {S : Session} {acts before : List Action} (h : Monitored S acts)
    (hwithin : before <+: acts) : Monitored S before where
  offsets := h.offsets
  threads := by
    have hsub : (before.map Action.tid).dedup ⊆ (acts.map Action.tid).dedup := by
      intro tid htid
      rw [List.mem_dedup] at htid ⊢
      exact (hwithin.map Action.tid).subset htid
    exact (List.subperm_of_subset (List.nodup_dedup _) hsub).length_le.trans h.threads
  reserved a ha := h.reserved a (hwithin.subset ha)
  nesting first hfirst := h.nesting first (hfirst.trans hwithin)

/-! ### The depth map has room -/

namespace Machine

theorem mem_depth_step (S : Session) (att : Attachment) (m : Machine) (a : Action) (tid : UInt32)
    (h : tid ∈ (step S att m a).depth.entries) : tid = a.tid ∨ tid ∈ m.depth.entries := by
  cases a with
  | enter t off hit =>
      rcases enter_cases S att m t off hit with ⟨-, hsame⟩ | ⟨raw, -, -, -, hdepth⟩
      · exact Or.inr (hsame ▸ h)
      · simp only [step, hdepth] at h
        split at h
        · exact BoundedMap.mem_of_mem_update _ _ _ _ h
        · exact Or.inr h
  | leave t hit =>
      rcases leave_cases S att m t hit with ⟨-, hsame⟩ | ⟨call, rest, raw, -, -, -, -, hdepth⟩
      · exact Or.inr (hsame ▸ h)
      · simp only [step, hdepth] at h
        exact BoundedMap.mem_of_mem_update _ _ _ _ h

/-- Only threads of the run have a counter. -/
theorem mem_depth_run (S : Session) (att : Attachment) (acts : List Action) (tid : UInt32)
    (h : tid ∈ (run S att acts).depth.entries) : tid ∈ acts.map Action.tid := by
  induction acts using List.reverseRecOn with
  | nil => simp [run, start, BoundedMap.mem_iff_lookup] at h
  | append_singleton acts a ih =>
      rw [run_concat] at h
      rw [List.map_append, List.mem_append]
      rcases mem_depth_step S att _ a tid h with rfl | hold
      · right
        simp
      · exact Or.inl (ih hold)

/-- With at most 4096 threads in the run, the depth map accepts each of them. -/
theorem accepts_of_threads (S : Session) (att : Attachment) {acts before : List Action}
    (hthreads : (acts.map Action.tid).dedup.length ≤ 4096) (hwithin : before <+: acts)
    {tid : UInt32} (htid : tid ∈ acts.map Action.tid) :
    (run S att before).depth.Accepts tid := by
  apply BoundedMap.accepts_of_subset _ (acts.map Action.tid) _ hthreads tid htid
  intro k hk
  exact (hwithin.map Action.tid).subset (mem_depth_run S att before k hk)

end Machine

/-! ### Tracked calls are the counted ones -/

theorem Session.hasret_eq_tracked (S : Session) (h : S.retOffsets.length ≤ 8192) (off : UInt64) :
    S.hasret off = S.tracked off := by
  rw [Bool.eq_iff_iff, S.hasret_iff, List.take_of_length_le h]
  simp [Session.tracked]

/-- `hasret` holds tracked offsets only. -/
theorem Session.tracked_of_hasret (S : Session) {off : UInt64} (h : S.hasret off = true) :
    S.tracked off = true := by
  simpa [Session.tracked] using S.mem_retOffsets_of_hasret h

theorem Session.hasret_of_untracked (S : Session) {off : UInt64} (h : S.tracked off = false) :
    S.hasret off = false := by
  rw [← Bool.not_eq_true]
  intro hhas
  rw [S.tracked_of_hasret hhas] at h
  cases h

theorem Session.mem_offsets_of_tracked (S : Session) {off : UInt64} (h : S.tracked off = true) :
    off ∈ S.offsets := by
  have hmem : off ∈ S.retOffsets := by simpa [Session.tracked] using h
  obtain ⟨slot, hslot, -⟩ := (S.mem_retOffsets off).mp hmem
  exact AList.lookup_isSome.mp (by simpa [Session.slotAt] using Option.isSome_of_mem hslot)

theorem Session.entryLive_all (S : Session) (off : UInt64) :
    S.entryLive .all off = decide (off ∈ S.offsets) := by
  simp [Session.entryLive, Attachment.all]

theorem Session.returnLive_all (S : Session) (off : UInt64) :
    S.returnLive .all off = S.tracked off := by
  simp [Session.returnLive, Attachment.all, Session.tracked]

section Step

variable {S : Session} {m : Machine} {tid : UInt32} {off : UInt64} {hit : Hit}

theorem Machine.counts_eq_tracked (hoffsets : S.retOffsets.length ≤ 8192)
    (hres : hit.reserved.isSome = true) (hacc : m.depth.Accepts tid) :
    Machine.counts S .all m tid off hit = S.tracked off := by
  rw [Bool.eq_iff_iff, Machine.counts_iff, S.hasret_eq_tracked hoffsets, S.entryLive_all]
  constructor
  · rintro ⟨-, -, h, -⟩
    exact h
  · intro h
    exact ⟨by simpa using S.mem_offsets_of_tracked h, hres, h, hacc⟩

end Step

/-- The counted flag of every open call says whether its slot is tracked. -/
theorem Monitored.counted_iff {S : Session} {acts : List Action} (h : Monitored S acts) :
    ∀ tid, ∀ c ∈ (Machine.run S .all acts).callStacks tid, c.counted = S.tracked c.off := by
  apply Machine.forall_open
  intro before tid off hit hwithin
  have hmem : Action.enter tid off hit ∈ acts := hwithin.subset (by simp)
  apply Machine.counts_eq_tracked h.offsets (h.reserved _ hmem)
  apply Machine.accepts_of_threads S .all h.threads ((List.prefix_append _ _).trans hwithin)
  exact List.mem_map_of_mem hmem

theorem Monitored.counted_eq {S : Session} {acts : List Action} (h : Monitored S acts)
    (tid : UInt32) :
    (Machine.run S .all acts).counted tid = (Machine.run S .all acts).openTracked S tid := by
  unfold Machine.counted Machine.openTracked
  congr 1
  apply List.filter_congr
  intro c hc
  exact h.counted_iff tid c (List.mem_reverse.mp hc)

/-- A monitored run is well paired at every moment. -/
theorem Monitored.paired {S : Session} {acts : List Action} (h : Monitored S acts) :
    Paired S (Machine.run S .all acts) := by
  apply paired_run
  rw [Runs.along_iff_prefix]
  intro before a hwithin
  have hbefore : Monitored S before := h.of_prefix ((List.prefix_append _ _).trans hwithin)
  have hsame : Runs.run (Machine.step S .all) Machine.start before = Machine.run S .all before :=
    rfl
  rw [hsame]
  cases a with
  | enter tid off hit =>
      intro _
      have hle := hbefore.nesting before List.prefix_rfl tid
      rw [hbefore.counted_eq]
      omega
  | leave tid hit =>
      intro call rest hstack
      have hflag := hbefore.counted_iff tid call (by simp [hstack])
      rw [S.returnLive_all, hflag]
      split
      · rename_i htracked
        exact ⟨htracked, h.reserved (.leave tid hit) (hwithin.subset (by simp))⟩
      · rename_i htracked
        exact fun hboth => absurd hboth.1 htracked

/-! ### Short runs -/

theorem Machine.length_stacks_le (S : Session) (att : Attachment) (acts : List Action)
    (tid : UInt32) : ((Machine.run S att acts).callStacks tid).length ≤ acts.length := by
  induction acts using List.reverseRecOn with
  | nil => simp [Machine.run, Machine.start]
  | append_singleton acts a ih =>
      rw [Machine.run_concat, List.length_append, List.length_singleton]
      cases a with
      | enter t off hit =>
          simp only [Machine.step, Machine.stacks_enter]
          by_cases ht : tid = t
          · subst ht
            simpa using ih
          · rw [Function.update_of_ne ht]
            omega
      | leave t hit =>
          simp only [Machine.step]
          cases hstack : (Machine.run S att acts).callStacks t with
          | nil =>
              rw [Machine.leave_idle hstack]
              omega
          | cons call rest =>
              rw [Machine.stacks_leave hstack]
              by_cases ht : tid = t
              · subst ht
                rw [hstack, List.length_cons] at ih
                rw [Function.update_self]
                omega
              · rw [Function.update_of_ne ht]
                omega

/-- A run of at most 4096 actions reaches no bound but that of the offsets. -/
theorem Monitored.of_short {S : Session} {acts : List Action}
    (hoffsets : S.retOffsets.length ≤ 8192) (hlen : acts.length ≤ 4096)
    (hreserved : ∀ a ∈ acts, a.hit.reserved.isSome = true) : Monitored S acts where
  offsets := hoffsets
  threads := (List.dedup_sublist _).length_le.trans (by simpa using hlen)
  reserved := hreserved
  nesting before hbefore tid := by
    have hstack := Machine.length_stacks_le S .all before tid
    have hopen : ((Machine.run S .all before).openTracked S tid).length ≤
        ((Machine.run S .all before).callStacks tid).length := by
      unfold Machine.openTracked
      rw [List.length_map]
      exact (List.length_filter_le _ _).trans (by simp)
    have hwithin := hbefore.length_le
    omega

end JniProbe
