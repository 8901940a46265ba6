import JniProbe.System.Refinement
import JniProbe.System.Scenario

/-!
Entry and return records are paired by call. In a monitored run the frames
map holds the frames of the tracked calls that are open and nothing else, and
every return record is answered with the frame of its own call. Both bounds
that a monitored run adds to "nothing is lost" are needed.
-/

namespace JniProbe

open GoText HeightSlots

/-! ### The frames map in a monitored run -/

/-- The frame under this key is the one that the entry record of this call
stored there. -/
def WrittenBy (S : Session) (recs : List Record) (key : Key) (call : Nat) : Prop :=
  ∃ pre e post fr, recs = pre ++ e :: post ∧ e.call = call ∧ e.evt.key = key ∧
    storesFrame S e.evt = true ∧ (Tracker.after S (pre ++ [e])).frames key = some fr ∧
    (Tracker.after S recs).frames key = some fr

section Content

variable {S : Session} {recs : List Record} {tid : UInt32} {p : Pending}

/-- The entry record of a pending call stored the frame of the call. -/
theorem Pending.EnteredIn.writtenBy (h : p.EnteredIn S recs tid)
    (hw : watched S.cfg tid = true) (hdepth : 0 ≤ p.entry.evt.depth)
    (hframe : (Tracker.after S recs).frames p.entry.evt.key = some (p.frame S)) :
    WrittenBy S recs p.entry.evt.key p.entry.call := by
  obtain ⟨pre, post, hsplit, hcaches⟩ := h.record
  have hwatched : watched S.cfg p.entry.evt.tid = true := by rw [h.thread, hw]
  refine ⟨pre, p.entry, post, p.frame S, hsplit, rfl, rfl, ?_, ?_, hframe⟩
  · simp [storesFrame, hwatched, h.kind, h.slot, h.tracked, hdepth]
  · rw [Tracker.after_concat, handleEvent_entry _ _ _ hwatched h.kind,
      handleEntry_frames_stored S _ _ _ h.slot h.tracked hdepth, ← hcaches]
    simp [Pending.frame]

/-- The pending call at height `d` and the frame under that depth. -/
theorem Follows.at_height {m : Machine} {s : StackTracer} (h : Follows S m s) {t : UInt32}
    {d : Int32} (hw : watched S.cfg t = true) (hd : 0 ≤ d) {call : Nat}
    (hcall : (m.openTracked S t)[d.toNatClampNeg]? = some call) :
    ∃ p ∈ s.pending t, p.entry.call = call ∧ p.entry.evt.depth = d ∧
      (Tracker.after S m.ring).frames (t.toInt32, d) = some (p.frame S) := by
  rw [← h.calls t hw, List.getElem?_map, Option.map_eq_some_iff] at hcall
  obtain ⟨p, hp, hid⟩ := hcall
  obtain ⟨hlt, hat⟩ := List.getElem?_eq_some_iff.mp hp
  obtain ⟨below, above, hsplit, hlen⟩ : ∃ below above,
      (s.pending t).reverse = below ++ p :: above ∧ below.length = d.toNatClampNeg := by
    refine ⟨_, (s.pending t).reverse.drop (d.toNatClampNeg + 1), ?_, List.length_take_of_le hlt.le⟩
    rw [← hat, ← List.drop_eq_getElem_cons hlt, List.take_append_drop]
  have hpending : s.pending t = above.reverse ++ p :: below.reverse := by
    simpa using congrArg List.reverse hsplit
  have hheight := h.heights t _ _ p hpending
  refine ⟨p, by simp [hpending], hid, ?_, ?_⟩
  · apply Int32.toInt_inj.mp
    have hnonneg : 0 ≤ d.toInt := by
      rwa [Int32.le_iff_toInt_le, Int32.toInt_zero] at hd
    rw [hheight, List.length_reverse, hlen, ← Int32.toNat_toInt]
    omega
  · simp only [h.frames, slots, hw, hd, decide_true, Bool.and_self, if_true,
      List.getElem?_map, hp, Option.map_some]

end Content

/-- The frames map holds a frame for every tracked call that is open, under
its thread and its position from the outermost, and no other frame. -/
structure HoldsOpenCalls (S : Session) (m : Machine) : Prop where
  keys : ∀ t d, ((Tracker.after S m.ring).frames (t.toInt32, d)).isSome = true ↔
    0 ≤ d ∧ d.toNatClampNeg < (m.openTracked S t).length
  own : ∀ t d call, 0 ≤ d → (m.openTracked S t)[d.toNatClampNeg]? = some call →
    WrittenBy S m.ring (t.toInt32, d) call

theorem Monitored.holdsOpenCalls {S : Session} {acts : List Action} (h : Monitored S acts)
    (hall : S.cfg.tid = 0) : HoldsOpenCalls S (Machine.run S .all acts) := by
  have hfollows := h.covered.follows
  have hw (t : UInt32) : watched S.cfg t = true := by simp [watched, hall]
  refine ⟨?_, ?_⟩
  · intro t d
    rw [hfollows.frames, hw, ← hfollows.calls t (hw t)]
    by_cases hd : 0 ≤ d
    · simp [slots, hd, Option.isSome_iff_ne_none]
    · simp [slots, hd]
  · intro t d call hd hcall
    obtain ⟨p, hp, hid, hdepth, hframe⟩ := hfollows.at_height (hw t) hd hcall
    have hentered := hfollows.entered t p hp
    have hkey : p.entry.evt.key = (t.toInt32, d) := by
      rw [Evt.key, hentered.thread, hdepth]
    rw [← hid, ← hkey]
    apply hentered.writtenBy (hw t)
    · rw [hdepth]
      exact hd
    · rw [hkey, hframe]

/-- Pairing in a monitored run of all threads. Every prefix of the event
stream is the stream of some prefix of the run, and there the frames map holds
exactly the frames of the open tracked calls. Every return record is answered
with the frame that the entry record of its own call wrote, no call is
answered twice, and a thread without open tracked calls has no frame. -/
theorem entry_return_pairing (S : Session) (acts : List Action) (hall : S.cfg.tid = 0)
    (h : Monitored S acts) :
    (∀ n ≤ (Machine.run S .all acts).ring.length, ∃ before, before <+: acts ∧
      (Machine.run S .all before).ring = (Machine.run S .all acts).ring.take n) ∧
    (∀ before, before <+: acts → HoldsOpenCalls S (Machine.run S .all before) ∧
      ∀ t, (Machine.run S .all before).openTracked S t = [] → ∀ d,
        (Tracker.after S (Machine.run S .all before).ring).frames (t.toInt32, d) = none) ∧
    (∀ j r, (Machine.run S .all acts).ring[j]? = some r → r.evt.kind = 1 →
      pairedWith S ((Machine.run S .all acts).ring.take j) r = some r.call ∧
      WrittenBy S ((Machine.run S .all acts).ring.take j) r.evt.key r.call) ∧
    (((Machine.run S .all acts).ring.filter (·.evt.kind = 1)).map (·.call)).Nodup := by
  refine ⟨Machine.ring_prefix S .all acts, ?_, ?_, (labelled_run S .all acts).returns_nodup⟩
  · intro before hbefore
    have hholds := (h.of_prefix hbefore).holdsOpenCalls hall
    refine ⟨hholds, ?_⟩
    intro t hnone d
    have hkeys := hholds.keys t d
    rw [hnone] at hkeys
    simpa using hkeys
  · intro j r hr hkind
    have hw : watched S.cfg r.evt.tid = true := by simp [watched, hall]
    refine ⟨h.covered.pairsOwn j r hr hkind hw, ?_⟩
    obtain ⟨p, outer, hanswer⟩ := h.covered.return_record (split_at hr) hkind hw
    have hkey : p.entry.evt.key = r.evt.key := by
      rw [Evt.key, hanswer.entered.thread, hanswer.depth, Evt.key]
    rw [← hkey, ← hanswer.call]
    apply hanswer.entered.writtenBy hw
    · rw [hanswer.depth]
      exact hanswer.nonneg
    · rw [hkey]
      exact hanswer.found

/-! ### The bounds are needed -/

namespace Scenario

/-- A hit with blank registers. -/
def plainHit : Hit := hit (Vector.replicate 5 0) none

/-- One thread that enters `FindClass` at offset 0 again and again. -/
def descend (n : Nat) : List Action := List.replicate n (.enter 1 0 plainHit)

def oneOffset : Session := session (manyOffsets 1 (by decide))

theorem lossless_descend (n : Nat) (a : Action) (htid : a.tid = 1)
    (hres : a.hit.reserved.isSome = true) : Lossless (descend n ++ [a]) := by
  have hmem {b : Action} (hb : b ∈ descend n ++ [a]) :
      b.tid = 1 ∧ b.hit.reserved.isSome = true := by
    rcases List.mem_append.mp hb with hdown | hlast
    · rw [List.eq_of_mem_replicate hdown]
      exact ⟨rfl, rfl⟩
    · rw [List.mem_singleton.mp hlast]
      exact ⟨htid, hres⟩
  refine ⟨?_, fun b hb => (hmem hb).2⟩
  have hone : ((descend n ++ [a]).map Action.tid).dedup ⊆ [1] := by
    intro tid hin
    rw [List.mem_dedup, List.mem_map] at hin
    obtain ⟨b, hb, rfl⟩ := hin
    simp [(hmem hb).1]
  have hle := (List.subperm_of_subset (List.nodup_dedup _) hone).length_le
  rw [List.length_singleton] at hle
  omega

/-- Nested calls below the wrap of the counter are all counted. -/
theorem descend_run (n : Nat) (hn : n < 2 ^ 32) :
    Paired oneOffset (Machine.run oneOffset .all (descend n)) ∧
      ((Machine.run oneOffset .all (descend n)).counted 1).length = n ∧
      ∀ c ∈ (Machine.run oneOffset .all (descend n)).callStacks 1,
        c.off = 0 ∧ c.counted = true := by
  have hoffsets : oneOffset.retOffsets = [0] := by
    rw [oneOffset, retOffsets_manyOffsets]
    rfl
  have htracked : oneOffset.tracked 0 = true := by simp [Session.tracked, hoffsets]
  induction n with
  | zero =>
      refine ⟨paired_start oneOffset, ?_, ?_⟩
      · simp [descend, Machine.run, Machine.start, Machine.counted]
      · simp [descend, Machine.run, Machine.start]
  | succ n ih =>
      obtain ⟨hpaired, hlen, hcalls⟩ := ih (by omega)
      have hacc : (Machine.run oneOffset .all (descend n)).depth.Accepts 1 := by
        apply Machine.accepts_of_threads oneOffset .all
          (lossless_descend n (.enter 1 0 plainHit) rfl rfl).threads
        · exact List.prefix_append _ _
        · simp [Action.tid]
      have hsplit : descend (n + 1) = descend n ++ [.enter 1 0 plainHit] := List.replicate_succ'
      rw [hsplit, Machine.run_concat]
      simp only [Machine.step]
      generalize Machine.run oneOffset .all (descend n) = m at hpaired hlen hcalls hacc
      have hcounts : Machine.counts oneOffset .all m 1 0 plainHit = true := by
        rw [Machine.counts_eq_tracked (by simp [hoffsets]) rfl hacc, htracked]
      refine ⟨?_, ?_, ?_⟩
      · refine hpaired.enter 1 0 plainHit ?_
        intro _
        omega
      · simp [Machine.counted_enter_self, hcounts, hlen]
      · intro c hc
        simp only [Machine.stacks_enter, Function.update_self, hcounts] at hc
        rcases List.mem_cons.mp hc with rfl | hold
        · exact ⟨rfl, rfl⟩
        · exact hcalls c hold

/-- A return at depth `2^31` or above finds no frame. -/
theorem descend_return (n : Nat) (hlow : 2 ^ 31 < n) (hhigh : n < 2 ^ 32) :
    ∃ before r, (Machine.run oneOffset .all (descend n ++ [.leave 1 plainHit])).ring =
      before ++ [r] ∧ r.evt.kind = 1 ∧ pairedWith oneOffset before r = none := by
  obtain ⟨hpaired, hlen, hcalls⟩ := descend_run n hhigh
  rw [Machine.run_concat]
  generalize Machine.run oneOffset .all (descend n) = m at hpaired hlen hcalls
  have hcount : (DepthMap.count m.depth 1).toNat = n := by rw [hpaired.counter, hlen]
  have hbig : ¬ (Machine.dropOne (DepthMap.count m.depth 1)).toNat < 2 ^ 31 := by
    rw [dropOne_toNat, hcount]
    omega
  cases hstack : m.callStacks 1 with
  | nil =>
      simp [Machine.counted, hstack] at hlen
      omega
  | cons call rest =>
      obtain ⟨hoff, -⟩ := hcalls call (by simp [hstack])
      have hlive : oneOffset.returnLive .all call.off = true := by
        rw [oneOffset.returnLive_all, hoff]
        simp [Session.tracked, oneOffset, retOffsets_manyOffsets]
      have hring : (Machine.leave oneOffset .all m 1 plainHit).ring =
          m.ring ++ [Machine.leaveRecord m 1 plainHit call.id blank] := by
        rw [Machine.leave_recorded blank hstack hlive rfl]
      refine ⟨m.ring, _, hring, rfl, ?_⟩
      rw [pairedWith_return]
      simp only [hbig, decide_false, Bool.and_false, Bool.false_eq_true, if_false]

/-- A call at `inner`, which `hasret` has no room for, made inside a call at
`outer`: its return is answered with the frame of the outer call. -/
theorem overflow_return (S : Session) (outer inner : UInt64) (hw : watched S.cfg 1 = true)
    (houter : S.hasret outer = true) (hinner : S.tracked inner = true)
    (hfull : S.hasret inner = false) :
    ∃ before r, (Machine.run S .all
        [.enter 1 outer plainHit, .enter 1 inner plainHit, .leave 1 plainHit]).ring =
      before ++ [r] ∧ r.evt.kind = 1 ∧ r.call = 1 ∧ pairedWith S before r = some 0 := by
  have hlive {off : UInt64} (h : S.tracked off = true) : S.entryLive .all off = true := by
    rw [S.entryLive_all, decide_eq_true_eq]
    exact S.mem_offsets_of_tracked h
  have houterTracked : S.tracked outer = true := S.tracked_of_hasret houter
  simp only [Machine.run, Runs.run_cons, Runs.run_nil, Machine.step]
  have hfirst : Machine.enter S .all Machine.start 1 outer plainHit = _ :=
    Machine.enter_recorded blank (hlive houterTracked) rfl
  generalize Machine.enter S .all Machine.start 1 outer plainHit = m at hfirst
  have hcount : DepthMap.count m.depth 1 = 1 := by
    rw [hfirst]
    simp only [houter, if_true]
    exact DepthMap.count_update_self _ _ _ (Or.inr (by decide))
  have hring : m.ring = [Machine.enterRecord S Machine.start 1 outer plainHit blank] := by
    rw [hfirst]
    rfl
  have hnext : m.next = 1 := by
    rw [hfirst]
    rfl
  have hsecond : Machine.enter S .all m 1 inner plainHit = _ :=
    Machine.enter_recorded blank (hlive hinner) rfl
  generalize Machine.enter S .all m 1 inner plainHit = m' at hsecond
  have hstack : m'.callStacks 1 =
      ⟨m.next, inner, Machine.counts S .all m 1 inner plainHit⟩ :: m.callStacks 1 := by
    rw [hsecond]
    simp
  have hcount' : DepthMap.count m'.depth 1 = 1 := by
    rw [hsecond]
    simpa [hfull] using hcount
  have hring' : m'.ring = m.ring ++ [Machine.enterRecord S m 1 inner plainHit blank] := by
    rw [hsecond]
  have hreturn : Machine.leave S .all m' 1 plainHit = _ :=
    Machine.leave_recorded blank hstack ((S.returnLive_all inner).trans hinner) rfl
  refine ⟨m'.ring, Machine.leaveRecord m' 1 plainHit m.next blank, ?_, rfl, hnext, ?_⟩
  · rw [hreturn]
  · have hdrop : Machine.dropOne 1 = 0 := by decide
    have hzero : Machine.start.next = 0 := rfl
    have hstart : DepthMap.count Machine.start.depth 1 = 0 := DepthMap.count_empty 1
    have hprov : provenance S m.ring = Function.update (fun _ => none) (1, 0) (some 0) := by
      rw [hring, ← List.nil_append [_], provenance_concat, provenanceStep_entry, houter, hw, hstart]
      rfl
    have hprov' : provenance S m'.ring = provenance S m.ring := by
      rw [hring', provenance_concat, provenanceStep_entry, hfull]
      rfl
    rw [pairedWith_return, hcount', hdrop, hw, hprov', hprov]
    rfl

/-- Of the offsets `0 … 8192`, all of them tracked, only the last is not in `hasret`. -/
theorem hasret_offsetsOf (slotOf : Nat → Nat) (n : Nat) (h : n ≤ 2 ^ 64) (hn : 8193 ≤ n)
    (htracked : ∀ i < 8193, (session (offsetsOf slotOf n h)).retSet (slotOf i) = true) {i : Nat}
    (hi : i < 8193) :
    ((session (offsetsOf slotOf n h)).hasret (UInt64.ofNat i) = true ↔ i < 8192) ∧
      (session (offsetsOf slotOf n h)).tracked (UInt64.ofNat i) = true := by
  have hsplit : List.range n = List.range 8193 ++ (List.range (n - 8193)).map (8193 + ·) := by
    rw [← List.range_add, Nat.add_sub_cancel' hn]
  have hoffsets := retOffsets_offsetsOf slotOf n h
  rw [hsplit, List.filter_append, List.filter_eq_self.mpr
    (fun i hi => htracked i (List.mem_range.mp hi)), List.map_append] at hoffsets
  refine ⟨?_, ?_⟩
  · rw [Session.hasret_iff, hoffsets, List.take_append_of_le_length (by simp), ← List.map_take,
      List.take_range]
    constructor
    · intro hmem
      obtain ⟨k, hk, heq⟩ := List.mem_map.mp hmem
      have hlt : k < 8192 := by simpa using hk
      have hnat := congrArg UInt64.toNat heq
      rw [UInt64.toNat_ofNat', UInt64.toNat_ofNat', Nat.mod_eq_of_lt (by omega),
        Nat.mod_eq_of_lt (by omega)] at hnat
      omega
    · intro hlt
      exact List.mem_map.mpr ⟨i, by simpa using hlt, rfl⟩
  · simp only [Session.tracked, hoffsets, List.contains_iff_mem]
    exact List.mem_append_left _ (List.mem_map.mpr ⟨i, List.mem_range.mpr hi, rfl⟩)

def crowded : Session := session (manyOffsets 8193 (by decide))

/-- The calls of the overflow: the first offset around the last one. -/
def overflowRun : List Action :=
  [.enter 1 0 plainHit, .enter 1 8192 plainHit, .leave 1 plainHit]

end Scenario

open Scenario in
/-- Without a bound on the nesting a return finds no frame; without one on the
tracked offsets a return finds the frame of another call. -/
theorem pairing_bounds_needed :
    (Lossless (descend (2 ^ 31 + 1) ++ [.leave 1 plainHit]) ∧ oneOffset.cfg.tid = 0 ∧
      ∃ before r, (Machine.run oneOffset .all (descend (2 ^ 31 + 1) ++ [.leave 1 plainHit])).ring =
        before ++ [r] ∧ r.evt.kind = 1 ∧ pairedWith oneOffset before r = none) ∧
    (Lossless overflowRun ∧ crowded.cfg.tid = 0 ∧
      ∃ before r, (Machine.run crowded .all overflowRun).ring = before ++ [r] ∧
        r.evt.kind = 1 ∧ r.call = 1 ∧ pairedWith crowded before r = some 0) := by
  refine ⟨⟨lossless_descend _ _ rfl rfl, rfl, ?_⟩, ⟨?_, ?_⟩, rfl, ?_⟩
  · exact descend_return (2 ^ 31 + 1) (by omega) (by omega)
  · decide
  · simp [overflowRun, Action.hit, plainHit, hit]
  · have hwatch : ∀ i < 8193, crowded.retSet 6 = true :=
      fun _ _ => retSet_of_alwaysWatch _ (by decide)
    obtain ⟨houter, -⟩ := hasret_offsetsOf (fun _ => 6) 8193 (by decide) (by omega) hwatch
      (show 0 < 8193 by omega)
    obtain ⟨hfull, hinner⟩ := hasret_offsetsOf (fun _ => 6) 8193 (by decide) (by omega) hwatch
      (show 8192 < 8193 by omega)
    apply overflow_return crowded 0 8192 rfl (houter.mpr (by omega)) hinner
    rw [Bool.eq_false_iff]
    exact fun hhas => absurd (hfull.mp hhas) (by omega)

open Scenario in
/-- A call with one nested call of the same function, seen to its end. -/
theorem entry_return_pairing_nested :
    HoldsOpenCalls oneOffset (Machine.run oneOffset .all
      [.enter 1 0 plainHit, .enter 1 0 plainHit, .leave 1 plainHit, .leave 1 plainHit]) := by
  have hmonitored : Monitored oneOffset
      [.enter 1 0 plainHit, .enter 1 0 plainHit, .leave 1 plainHit, .leave 1 plainHit] := by
    apply Monitored.of_short
    · simp [oneOffset, retOffsets_manyOffsets]
    · simp
    · simp [Action.hit, plainHit, hit]
  exact ((entry_return_pairing oneOffset _ rfl hmonitored).2.1 _ List.prefix_rfl).1

end JniProbe
