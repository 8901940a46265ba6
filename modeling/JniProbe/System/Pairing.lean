import JniProbe.Lib.HeightSlots
import JniProbe.System.Provenance

/-!
Pairing by a counter. On every thread the counted calls that are open form a
stack; the thread's BPF counter is its height and the frame of the call at
height `d` is stored under `(tid, d)`. The invariant says so for the machine,
and one lemma for each action says when the action keeps it.
-/

namespace JniProbe

open GoText HeightSlots

/-! ### The counter of a thread -/

theorem DepthMap.count_empty (tid : UInt32) :
    DepthMap.count (BoundedMap.empty : DepthMap) tid = 0 := by
  simp [DepthMap.count]

theorem DepthMap.count_update_self (depth : DepthMap) (tid v : UInt32)
    (h : depth.Accepts tid) : DepthMap.count (depth.update tid v) tid = v := by
  simp [DepthMap.count, BoundedMap.lookup_update_self depth tid v h]

theorem DepthMap.count_update_ne (depth : DepthMap) {tid tid' : UInt32} (v : UInt32)
    (h : tid' ≠ tid) : DepthMap.count (depth.update tid v) tid' = DepthMap.count depth tid' := by
  simp [DepthMap.count, BoundedMap.lookup_update_ne depth v h]

/-- A thread with a positive counter has an entry, so its updates succeed. -/
theorem DepthMap.accepts_of_count_pos (depth : DepthMap) (tid : UInt32)
    (h : DepthMap.count depth tid ≠ 0) : depth.Accepts tid := by
  left
  rw [BoundedMap.mem_iff_lookup]
  cases hlookup : depth.lookup tid with
  | none => simp [DepthMap.count, hlookup] at h
  | some v => rfl

/-! ### Tracked offsets -/

theorem Session.mem_retOffsets (S : Session) (off : UInt64) :
    off ∈ S.retOffsets ↔ ∃ slot, S.slotAt off = some slot ∧ S.retSet slot = true := by
  simp only [Session.retOffsets, List.mem_filterMap]
  constructor
  · rintro ⟨⟨o, slot⟩, hmem, hif⟩
    split at hif
    · rename_i hret
      obtain rfl : o = off := by simpa using hif
      exact ⟨slot, AList.mem_lookup_iff.mpr hmem, hret⟩
    · cases hif
  · rintro ⟨slot, hlookup, hret⟩
    exact ⟨⟨off, slot⟩, AList.mem_lookup_iff.mp hlookup, by simp [hret]⟩

theorem Session.retOffsets_nodup (S : Session) : S.retOffsets.Nodup := by
  have hkeys := S.offsets.keys_nodup
  have hsub : S.retOffsets.Sublist S.offsets.keys := by
    have hmap : S.offsets.keys = S.offsets.entries.filterMap (fun p => some p.1) := by
      simp [AList.keys, List.keys]
    rw [hmap]
    unfold Session.retOffsets
    induction S.offsets.entries with
    | nil => simp
    | cons p rest ih =>
        simp only [List.filterMap_cons]
        split
        · exact ih.cons _
        · rename_i o ho
          split at ho
          · obtain rfl : p.1 = o := by simpa using ho
            exact ih.cons_cons _
          · cases ho
  exact hsub.nodup hkeys

/-- The first 8192 tracked offsets, in visiting order, are in `hasret`. -/
theorem Session.hasret_iff (S : Session) (off : UInt64) :
    S.hasret off = true ↔ off ∈ S.retOffsets.take 8192 := by
  have hfst : (S.retOffsets.map (fun off => (off, (1 : UInt8)))).map Prod.fst = S.retOffsets := by
    simp [Function.comp_def]
  have hfill : (BoundedMap.fill (S.retOffsets.map (fun off => (off, (1 : UInt8)))) :
      BoundedMap UInt64 UInt8 8192).lookup off = _ :=
    BoundedMap.fill_lookup _ (by rw [hfst]; exact S.retOffsets_nodup) off
  simp only [Session.hasret, Session.maps, hfill, ← List.map_take, Option.isSome_map,
    List.find?_isSome, List.mem_map, decide_eq_true_eq]
  constructor
  · rintro ⟨_, ⟨o, ho, rfl⟩, rfl⟩
    exact ho
  · intro h
    exact ⟨(off, 1), ⟨off, h, rfl⟩, rfl⟩

theorem Session.mem_retOffsets_of_hasret (S : Session) {off : UInt64}
    (h : S.hasret off = true) : off ∈ S.retOffsets :=
  List.mem_of_mem_take ((S.hasret_iff off).mp h)

/-! ### What a record does to the provenance map -/

section Records

variable (S : Session) (m : Machine) (tid : UInt32) (off : UInt64) (hit : Hit)

theorem storesFrame_entryEvt (d : UInt32) (raw : Evt) :
    storesFrame S (entryEvt S.maps d (Machine.entryCtx S tid off hit) raw) =
      (watched S.cfg tid && S.hasret off && decide (d.toNat < 2 ^ 31)) := by
  have hoff : (Machine.entryCtx S tid off hit).ip - S.base = off := Machine.entryCtx_offset
  simp only [storesFrame, entryEvt_tid, entryEvt_kind, entryEvt_ip, hoff,
    Machine.entryEvt_depth_at, Machine.entryCtx_tid]
  by_cases hhas : S.hasret off = true
  · obtain ⟨slot, hslot, hret⟩ :=
      (S.mem_retOffsets off).mp (S.mem_retOffsets_of_hasret hhas)
    simp [hslot, hret, hhas, nonneg_toInt32_iff]
  · simp [hhas]

/-- An entry record stores the frame of its call under the old counter. -/
theorem provenanceStep_entry (src : Key → Option Nat) (d : UInt32) (raw : Evt) (call : Nat) :
    provenanceStep S src
        ⟨entryEvt S.maps d (Machine.entryCtx S tid off hit) raw, hit.env, call⟩ =
      if S.hasret off && (watched S.cfg tid && decide (d.toNat < 2 ^ 31)) then
        Function.update src (tid.toInt32, d.toInt32) (some call) else src := by
  have htakes : takesFrame S (entryEvt S.maps d (Machine.entryCtx S tid off hit) raw) = false := by
    simp [takesFrame]
  simp only [provenanceStep, storesFrame_entryEvt, htakes]
  by_cases hhas : S.hasret off = true
  · have hkey : (entryEvt S.maps d (Machine.entryCtx S tid off hit) raw).key =
        (tid.toInt32, d.toInt32) := by
      simp [Evt.key, Machine.entryEvt_depth_at, hhas]
    simp [hhas, hkey]
  · simp [hhas]

theorem takesFrame_returnEvt (nd : UInt32) (raw : Evt) :
    takesFrame S (returnEvt nd (Machine.returnCtx tid hit) raw) =
      (watched S.cfg tid && decide (nd.toNat < 2 ^ 31)) := by
  simp [takesFrame, returnEvt, Machine.returnCtx, nonneg_toInt32_iff]

/-- A return record clears the slot of the new counter. -/
theorem provenanceStep_return (src : Key → Option Nat) (nd : UInt32) (raw : Evt) (call : Nat) :
    provenanceStep S src ⟨returnEvt nd (Machine.returnCtx tid hit) raw, hit.env, call⟩ =
      if watched S.cfg tid && decide (nd.toNat < 2 ^ 31) then
        Function.update src (tid.toInt32, nd.toInt32) none else src := by
  have hstores : storesFrame S (returnEvt nd (Machine.returnCtx tid hit) raw) = false := by
    simp [storesFrame, returnEvt]
  have hkey : (returnEvt nd (Machine.returnCtx tid hit) raw).key = (tid.toInt32, nd.toInt32) := rfl
  simp [provenanceStep, hstores, takesFrame_returnEvt, hkey]

end Records

/-! ### The callStacks after a step -/

namespace Machine

variable {S : Session} {att : Attachment} {m : Machine} {tid : UInt32} {off : UInt64} {hit : Hit}

theorem stacks_enter : (enter S att m tid off hit).callStacks =
    Function.update m.callStacks tid
      (⟨m.next, off, counts S att m tid off hit⟩ :: m.callStacks tid) := by
  simp only [enter]
  split <;> simp [submit]

theorem counted_enter_self : (enter S att m tid off hit).counted tid =
    m.counted tid ++ (if counts S att m tid off hit then [m.next] else []) := by
  unfold counted
  rw [stacks_enter, Function.update_self, List.reverse_cons, List.filter_append, List.map_append]
  congr 1
  cases counts S att m tid off hit <;> simp

theorem counted_enter_ne {t : UInt32} (h : t ≠ tid) :
    (enter S att m tid off hit).counted t = m.counted t := by
  simp [counted, stacks_enter, Function.update_of_ne h]

theorem stacks_leave {call : OpenCall} {rest : List OpenCall}
    (hstack : m.callStacks tid = call :: rest) :
    (leave S att m tid hit).callStacks = Function.update m.callStacks tid rest := by
  simp only [leave, hstack]
  split <;> simp [submit]

theorem counted_of_stack {call : OpenCall} {rest : List OpenCall}
    (hstack : m.callStacks tid = call :: rest) :
    m.counted tid = ((rest.reverse.filter (·.counted)).map (·.id)) ++
      (if call.counted then [call.id] else []) := by
  unfold counted
  rw [hstack, List.reverse_cons, List.filter_append, List.map_append]
  congr 1
  cases hc : call.counted <;> simp [hc]

theorem counted_leave_self {call : OpenCall} {rest : List OpenCall}
    (hstack : m.callStacks tid = call :: rest) :
    (leave S att m tid hit).counted tid = (rest.reverse.filter (·.counted)).map (·.id) := by
  simp [counted, stacks_leave hstack]

theorem counted_leave_ne {call : OpenCall} {rest : List OpenCall}
    (hstack : m.callStacks tid = call :: rest) {t : UInt32} (h : t ≠ tid) :
    (leave S att m tid hit).counted t = m.counted t := by
  simp [counted, stacks_leave hstack, Function.update_of_ne h]

end Machine

/-! ### The invariant -/

/-- Every return record that finds a frame finds the one of its own call. -/
def WellPaired (S : Session) (recs : List Record) : Prop :=
  ∀ before r after, recs = before ++ r :: after → ∀ id, pairedWith S before r = some id →
    id = r.call

/-- The counter of every thread is the height of its stack of counted calls,
and the calls lie in the frames map under their heights. A thread that the
full `depth` map rejects has no counter, so nothing is said of its frames. -/
structure Paired (S : Session) (m : Machine) : Prop where
  counter : ∀ t, (DepthMap.count m.depth t).toNat = (m.counted t).length
  stored : ∀ t, m.depth.Accepts t → ∀ d,
    provenance S m.ring (t.toInt32, d) = slots (watched S.cfg t) (m.counted t) d
  own : WellPaired S m.ring

theorem wellPaired_concat (S : Session) (recs : List Record) (r : Record) :
    WellPaired S (recs ++ [r]) ↔
      WellPaired S recs ∧ ∀ id, pairedWith S recs r = some id → id = r.call := by
  constructor
  · intro h
    refine ⟨?_, h recs r [] rfl⟩
    intro before x after heq
    exact h before x (after ++ [r]) (by simp [heq])
  · rintro ⟨hold, hnew⟩ before x after heq
    rcases List.eq_nil_or_concat after with rfl | ⟨init, last, rfl⟩
    · obtain ⟨rfl, hlast⟩ := List.append_inj' heq rfl
      obtain rfl : r = x := by simpa using hlast
      exact hnew
    · have heq' : recs ++ [r] = (before ++ x :: init) ++ [last] := by
        simpa using heq
      obtain ⟨hrecs, -⟩ := List.append_inj' heq' rfl
      exact hold before x init hrecs

theorem paired_start (S : Session) : Paired S Machine.start where
  counter t := by simp [Machine.start, DepthMap.count_empty, Machine.counted]
  stored t _ d := by simp [Machine.start, Machine.counted, provenance, slots_nil]
  own before r after h := by simp [Machine.start] at h

/-- A recorded entry is counted when `hasret` has its offset and the `depth`
map has room for its thread. -/
theorem Machine.counts_recorded {S : Session} {att : Attachment} {m : Machine} {tid : UInt32}
    {off : UInt64} {hit : Hit} {raw : Evt} (hlive : S.entryLive att off = true)
    (hraw : hit.reserved = some raw) : Machine.counts S att m tid off hit = true ↔
      S.hasret off = true ∧ m.depth.Accepts tid := by
  simp [Machine.counts_iff, hlive, hraw]

/-- An entry that leaves no record is not counted. -/
theorem Machine.counts_silent {S : Session} {att : Attachment} {m : Machine} {tid : UInt32}
    {off : UInt64} {hit : Hit}
    (h : ¬ (S.entryLive att off = true ∧ hit.reserved.isSome = true)) :
    Machine.counts S att m tid off hit = false := by
  rw [Bool.eq_false_iff, ne_eq, Machine.counts_iff]
  rintro ⟨hlive, hres, -⟩
  exact h ⟨hlive, hres⟩

/-- An entry that is not counted leaves the counted calls of every thread. -/
theorem Machine.counted_enter_uncounted {S : Session} {att : Attachment} {m : Machine}
    {tid : UInt32} {off : UInt64} {hit : Hit} (h : Machine.counts S att m tid off hit = false)
    (t : UInt32) : (Machine.enter S att m tid off hit).counted t = m.counted t := by
  by_cases ht : t = tid
  · subst ht
    simp [Machine.counted_enter_self, h]
  · exact Machine.counted_enter_ne ht

section Enter

variable {S : Session} {att : Attachment} {m : Machine} {tid : UInt32} {off : UInt64} {hit : Hit}
  {raw : Evt}

/-- The counter of the thread that enters grows with its stack of counted
calls; a thread that is not accepted keeps counting nothing. -/
theorem Paired.counter_enter (h : Paired S m) (hlive : S.entryLive att off = true)
    (hraw : hit.reserved = some raw) (hwrap : Machine.counts S att m tid off hit = true →
      (m.counted tid).length + 1 < 2 ^ 32) (t : UInt32) :
    (DepthMap.count (Machine.enter S att m tid off hit).depth t).toNat =
      ((Machine.enter S att m tid off hit).counted t).length := by
  have hcounts : Machine.counts S att m tid off hit = true ↔ _ :=
    Machine.counts_recorded hlive hraw
  by_cases ht : t = tid
  · subst ht
    rw [Machine.counted_enter_self, Machine.enter_recorded raw hlive hraw]
    by_cases hc : Machine.counts S att m t off hit = true
    · have hfit := hwrap hc
      obtain ⟨hhas, hacc⟩ := hcounts.mp hc
      simp only [hhas, hc, if_true]
      rw [DepthMap.count_update_self _ _ _ hacc, UInt32.toNat_add, h.counter, List.length_append]
      simp only [UInt32.toNat_one, List.length_singleton]
      omega
    · simp only [hc, Bool.false_eq_true, if_false, List.append_nil]
      by_cases hhas : S.hasret off = true
      · have hrej : ¬ m.depth.Accepts t := by
          intro hacc
          exact hc (hcounts.mpr ⟨hhas, hacc⟩)
        simp only [hhas, if_true, BoundedMap.update_of_not_accepts _ _ _ hrej]
        exact h.counter t
      · simp only [hhas, Bool.false_eq_true, if_false]
        exact h.counter t
  · rw [Machine.counted_enter_ne ht, Machine.enter_recorded raw hlive hraw]
    dsimp only
    split
    · rw [DepthMap.count_update_ne _ _ ht]
      exact h.counter t
    · exact h.counter t

theorem Machine.accepts_of_accepts_enter (hlive : S.entryLive att off = true)
    (hraw : hit.reserved = some raw) {t : UInt32}
    (h : (Machine.enter S att m tid off hit).depth.Accepts t) : m.depth.Accepts t := by
  rw [Machine.enter_recorded raw hlive hraw] at h
  dsimp only at h
  split at h
  · exact BoundedMap.accepts_of_accepts_update _ _ _ _ h
  · exact h

/-- A counted call of a watched thread is stored under the height of the
stack; no other key changes. -/
theorem Paired.stored_enter (h : Paired S m) (hlive : S.entryLive att off = true)
    (hraw : hit.reserved = some raw) {t : UInt32}
    (hacc : (Machine.enter S att m tid off hit).depth.Accepts t) (d' : Int32) :
    provenance S (Machine.enter S att m tid off hit).ring (t.toInt32, d') =
      slots (watched S.cfg t) ((Machine.enter S att m tid off hit).counted t) d' := by
  have hold : m.depth.Accepts t := Machine.accepts_of_accepts_enter hlive hraw hacc
  have hring : (Machine.enter S att m tid off hit).ring =
      m.ring ++ [⟨entryEvt S.maps (DepthMap.count m.depth tid) (Machine.entryCtx S tid off hit) raw,
        hit.env, m.next⟩] := by
    rw [Machine.enter_recorded raw hlive hraw]
  have hother {t : UInt32} (ht : t ≠ tid) :
      (Machine.enter S att m tid off hit).counted t = m.counted t := Machine.counted_enter_ne ht
  rw [hring, provenance_concat, provenanceStep_entry]
  cases hc : Machine.counts S att m tid off hit with
  | true =>
      have hself : (Machine.enter S att m tid off hit).counted tid = _ :=
        Machine.counted_enter_self
      rw [if_pos hc] at hself
      rw [((Machine.counts_recorded hlive hraw).mp hc).1, Bool.true_and]
      exact slots_pushed toInt32_injective (h.counter tid) hself hother (h.stored t hold) d'
  | false =>
      rw [Machine.counted_enter_uncounted hc]
      split
      · rename_i hstores
        have hne : t ≠ tid := by
          rintro rfl
          rw [Bool.and_eq_true] at hstores
          rw [(Machine.counts_recorded hlive hraw).mpr ⟨hstores.1, hold⟩] at hc
          cases hc
        rw [update_row_ne (toInt32_injective.ne hne)]
        exact h.stored t hold d'
      · exact h.stored t hold d'

/-- Entering a function keeps the invariant unless the counter wraps. -/
theorem Paired.enter (h : Paired S m) (tid : UInt32) (off : UInt64) (hit : Hit)
    (hwrap : Machine.counts S att m tid off hit = true →
      (m.counted tid).length + 1 < 2 ^ 32) :
    Paired S (Machine.enter S att m tid off hit) := by
  by_cases hrec : S.entryLive att off = true ∧ hit.reserved.isSome = true
  · obtain ⟨raw, hraw⟩ := Option.isSome_iff_exists.mp hrec.2
    refine ⟨h.counter_enter hrec.1 hraw hwrap, fun t hacc => h.stored_enter hrec.1 hraw hacc, ?_⟩
    rw [Machine.enter_recorded raw hrec.1 hraw, wellPaired_concat]
    refine ⟨h.own, ?_⟩
    intro id hid
    simp [pairedWith, takesFrame] at hid
  · have hcounted (t : UInt32) :
        (Machine.enter S att m tid off hit).counted t = m.counted t :=
      Machine.counted_enter_uncounted (Machine.counts_silent hrec) t
    have hsame : Machine.enter S att m tid off hit = _ := Machine.enter_silent hrec
    refine ⟨?_, ?_, ?_⟩
    · intro t
      rw [hcounted, hsame]
      exact h.counter t
    · intro t hacc d
      rw [hcounted]
      rw [hsame] at hacc ⊢
      exact h.stored t hacc d
    · rw [hsame]
      exact h.own

end Enter

theorem dropOne_toNat (d : UInt32) : (Machine.dropOne d).toNat = d.toNat - 1 := by
  unfold Machine.dropOne
  split
  · rename_i h
    have hpos : 0 < d.toNat := h
    have hle : (1 : UInt32) ≤ d := by
      rw [UInt32.le_iff_toNat_le, UInt32.toNat_one]
      omega
    rw [UInt32.toNat_sub_of_le _ _ hle]
    rfl
  · rename_i h
    have hzero : ¬ 0 < d.toNat := h
    simp only [UInt32.toNat_zero]
    omega

/-- The loader's answer to a return record: the frame under the new counter. -/
theorem pairedWith_return (S : Session) (recs : List Record) (tid : UInt32) (hit : Hit)
    (nd : UInt32) (raw : Evt) (call : Nat) :
    pairedWith S recs ⟨returnEvt nd (Machine.returnCtx tid hit) raw, hit.env, call⟩ =
      if watched S.cfg tid && decide (nd.toNat < 2 ^ 31) then
        provenance S recs (tid.toInt32, nd.toInt32) else none := by
  have hkey : (returnEvt nd (Machine.returnCtx tid hit) raw).key = (tid.toInt32, nd.toInt32) := rfl
  simp [pairedWith, takesFrame_returnEvt, hkey]

section Leave

variable {S : Session} {att : Attachment} {m : Machine} {tid : UInt32} {hit : Hit}
  {call : OpenCall} {rest : List OpenCall}

/-- A return without a record is harmless if the entry was not counted. -/
theorem Paired.leave_silent (h : Paired S m) (hstack : m.callStacks tid = call :: rest)
    (hsilent : ¬ (S.returnLive att call.off = true ∧ hit.reserved.isSome = true))
    (hcounted : call.counted = false) : Paired S (Machine.leave S att m tid hit) := by
  have hsame (t : UInt32) : (Machine.leave S att m tid hit).counted t = m.counted t := by
    by_cases ht : t = tid
    · subst ht
      rw [Machine.counted_leave_self hstack, Machine.counted_of_stack hstack]
      simp [hcounted]
    · exact Machine.counted_leave_ne hstack ht
  have hstep := Machine.leave_silent hstack hsilent
  refine ⟨?_, ?_, ?_⟩
  · intro t
    rw [hsame, hstep]
    exact h.counter t
  · intro t hacc d
    rw [hsame]
    rw [hstep] at hacc ⊢
    exact h.stored t hacc d
  · rw [hstep]
    exact h.own

/-- A return record of a counted call finds the frame of this call, lowers the
counter and clears the slot. -/
theorem Paired.leave_counted (h : Paired S m) (hstack : m.callStacks tid = call :: rest)
    (raw : Evt) (hlive : S.returnLive att call.off = true) (hres : hit.reserved = some raw)
    (hcounted : call.counted = true) : Paired S (Machine.leave S att m tid hit) := by
  have hself : (Machine.leave S att m tid hit).counted tid = _ :=
    Machine.counted_leave_self hstack
  have hother {t : UInt32} (ht : t ≠ tid) :
      (Machine.leave S att m tid hit).counted t = m.counted t :=
    Machine.counted_leave_ne hstack ht
  have hbefore := Machine.counted_of_stack hstack
  rw [Machine.leave_recorded raw hstack hlive hres] at hself hother ⊢
  generalize hbelow : (rest.reverse.filter (·.counted)).map (·.id) = below at hself hbefore
  rw [if_pos hcounted] at hbefore
  set nd := Machine.dropOne (DepthMap.count m.depth tid) with hnd
  have hcount := h.counter tid
  have hheight : nd.toNat = below.length := by
    rw [hnd, dropOne_toNat, hcount, hbefore]
    simp
  have hacc : m.depth.Accepts tid := by
    apply DepthMap.accepts_of_count_pos
    intro hzero
    rw [hzero, hbefore] at hcount
    simp at hcount
  refine ⟨?_, ?_, ?_⟩
  · intro t
    by_cases ht : t = tid
    · subst ht
      rw [hself, DepthMap.count_update_self _ _ _ hacc, hheight]
    · rw [hother ht, DepthMap.count_update_ne _ _ ht]
      exact h.counter t
  · intro t hacc' d'
    have hold : m.depth.Accepts t := BoundedMap.accepts_of_accepts_update _ _ _ _ hacc'
    rw [provenance_concat, provenanceStep_return]
    exact slots_popped toInt32_injective (hheight.trans (congrArg List.length hself.symm))
      (hbefore.trans (congrArg (· ++ [call.id]) hself.symm)) hother (h.stored t hold) d'
  · rw [wellPaired_concat]
    refine ⟨h.own, ?_⟩
    intro id hid
    rw [pairedWith_return] at hid
    split at hid
    · rename_i hslot
      simp only [Bool.and_eq_true, decide_eq_true_eq] at hslot
      rw [h.stored tid hacc, hbefore, slots_of_lt _ _ nd hslot.2, hheight] at hid
      simpa [hslot.1] using hid.symm
    · cases hid

/-- A return record of a call that was not counted is harmless while no
counted call of the thread is open: it finds no frame. -/
theorem Paired.leave_uncounted (h : Paired S m) (hstack : m.callStacks tid = call :: rest)
    (raw : Evt) (hlive : S.returnLive att call.off = true) (hres : hit.reserved = some raw)
    (hcounted : call.counted = false) (hbelow : ∀ c ∈ rest, c.counted = false)
    (hacc : m.depth.Accepts tid) : Paired S (Machine.leave S att m tid hit) := by
  have hself : (Machine.leave S att m tid hit).counted tid = _ :=
    Machine.counted_leave_self hstack
  have hother {t : UInt32} (ht : t ≠ tid) :
      (Machine.leave S att m tid hit).counted t = m.counted t :=
    Machine.counted_leave_ne hstack ht
  have hnone : rest.reverse.filter (·.counted) = [] := by
    rw [List.filter_eq_nil_iff]
    intro c hc
    simp [hbelow c (List.mem_reverse.mp hc)]
  have hbefore : m.counted tid = [] := by
    rw [Machine.counted_of_stack hstack, hnone]
    simp [hcounted]
  have hcount : (DepthMap.count m.depth tid).toNat = 0 := by
    simpa [hbefore] using h.counter tid
  rw [Machine.leave_recorded raw hstack hlive hres] at hself hother ⊢
  rw [hnone] at hself
  set nd := Machine.dropOne (DepthMap.count m.depth tid) with hnd
  have hzero : nd.toNat = 0 := by rw [hnd, dropOne_toNat, hcount]
  have hempty (d : Int32) : provenance S m.ring (tid.toInt32, d) = none := by
    rw [h.stored tid hacc, hbefore, slots_nil]
  have hcleared : Function.update (slots (watched S.cfg tid) ([] : List Nat)) nd.toInt32 none =
      slots (watched S.cfg tid) [] := by
    rw [Function.update_eq_self_iff]
    exact (slots_nil _ _).symm
  refine ⟨?_, ?_, ?_⟩
  · intro t
    by_cases ht : t = tid
    · subst ht
      rw [hself, DepthMap.count_update_self _ _ _ hacc, hzero]
      rfl
    · rw [hother ht, DepthMap.count_update_ne _ _ ht]
      exact h.counter t
  · intro t hacc' d'
    have hold : m.depth.Accepts t := BoundedMap.accepts_of_accepts_update _ _ _ _ hacc'
    rw [provenance_concat, provenanceStep_return]
    apply slots_written toInt32_injective _ hother (h.stored t hold) d'
    rw [hself, hbefore, hcleared, ite_self]
    rfl
  · rw [wellPaired_concat]
    refine ⟨h.own, ?_⟩
    intro id hid
    rw [pairedWith_return, hempty, ite_self] at hid
    cases hid

end Leave

/-! ### Whole runs -/

/-- A step after which counter and stack still agree: an entry does not wrap
the counter, the return of a counted call is recorded, and the return of any
other call is recorded only while the thread has no counted call open. -/
def Machine.Keeps (S : Session) (att : Attachment) (m : Machine) : Action → Prop
  | .enter tid off hit =>
    Machine.counts S att m tid off hit = true → (m.counted tid).length + 1 < 2 ^ 32
  | .leave tid hit => ∀ call rest, m.callStacks tid = call :: rest →
    if call.counted then S.returnLive att call.off = true ∧ hit.reserved.isSome = true
    else S.returnLive att call.off = true ∧ hit.reserved.isSome = true →
      (∀ c ∈ rest, c.counted = false) ∧ m.depth.Accepts tid

theorem Paired.step {S : Session} {att : Attachment} {m : Machine} {a : Action}
    (h : Paired S m) (hkeeps : Machine.Keeps S att m a) : Paired S (Machine.step S att m a) := by
  cases a with
  | enter tid off hit => exact h.enter tid off hit hkeeps
  | leave tid hit =>
      simp only [Machine.step]
      cases hstack : m.callStacks tid with
      | nil =>
          rw [Machine.leave_idle hstack]
          exact h
      | cons call rest =>
          have hcall := hkeeps call rest hstack
          by_cases hcounted : call.counted = true
          · rw [if_pos hcounted] at hcall
            obtain ⟨raw, hraw⟩ := Option.isSome_iff_exists.mp hcall.2
            exact h.leave_counted hstack raw hcall.1 hraw hcounted
          · rw [if_neg hcounted] at hcall
            have hflag : call.counted = false := by simpa using hcounted
            by_cases hrec : S.returnLive att call.off = true ∧ hit.reserved.isSome = true
            · obtain ⟨raw, hraw⟩ := Option.isSome_iff_exists.mp hrec.2
              obtain ⟨hbelow, hacc⟩ := hcall hrec
              exact h.leave_uncounted hstack raw hrec.1 hraw hflag hbelow hacc
            · exact h.leave_silent hstack hrec hflag

theorem paired_run {S : Session} {att : Attachment} {acts : List Action}
    (h : Runs.Along (Machine.step S att) (Machine.Keeps S att) Machine.start acts) :
    Paired S (Machine.run S att acts) :=
  Runs.invariant (Machine.step S att) (fun _ _ => Paired.step) (paired_start S) h

namespace Machine

theorem run_concat (S : Session) (att : Attachment) (acts : List Action) (a : Action) :
    run S att (acts ++ [a]) = step S att (run S att acts) a :=
  Runs.run_concat (step S att) start acts a

/-- What holds of every call when it is entered holds of every open call. -/
theorem forall_open (S : Session) (att : Attachment) {P : OpenCall → Prop} (acts : List Action)
    (hpush : ∀ before tid off hit, before ++ [.enter tid off hit] <+: acts →
      P ⟨(run S att before).next, off, counts S att (run S att before) tid off hit⟩) :
    ∀ tid, ∀ c ∈ (run S att acts).callStacks tid, P c := by
  induction acts using List.reverseRecOn with
  | nil =>
      intro tid c hc
      simp [run, start] at hc
  | append_singleton acts a ih =>
      have hold := ih (fun before tid off hit hwithin =>
        hpush before tid off hit (hwithin.trans (List.prefix_append _ _)))
      intro tid c hc
      rw [run_concat] at hc
      cases a with
      | enter t off hit =>
          simp only [step, stacks_enter] at hc
          by_cases ht : tid = t
          · subst ht
            rw [Function.update_self] at hc
            rcases List.mem_cons.mp hc with rfl | hrest
            · exact hpush acts tid off hit List.prefix_rfl
            · exact hold tid c hrest
          · rw [Function.update_of_ne ht] at hc
            exact hold tid c hc
      | leave t hit =>
          simp only [step] at hc
          cases hstack : (run S att acts).callStacks t with
          | nil =>
              rw [leave_idle hstack] at hc
              exact hold tid c hc
          | cons call rest =>
              rw [stacks_leave hstack] at hc
              by_cases ht : tid = t
              · subst ht
                rw [Function.update_self] at hc
                exact hold tid c (by simp [hstack, hc])
              · rw [Function.update_of_ne ht] at hc
                exact hold tid c hc

end Machine

end JniProbe
