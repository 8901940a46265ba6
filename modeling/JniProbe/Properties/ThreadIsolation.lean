import JniProbe.Properties.EntryReturn
import JniProbe.System.Answers
import JniProbe.System.TwoSessions

/-!
Threads do not disturb each other. The records of a thread are those that it
leaves when it runs alone, and a session that watches it prints the same, as
long as the depth map has room for all threads.
-/

namespace JniProbe

open GoText

/-- What the threads do, but for all others than one. -/
def alone (T : UInt32) (acts : List Action) : List Action := acts.filter (fun a => a.tid = T)

/-- What the loader gets of a record. -/
def Record.seen (r : Record) : Evt × Env := (r.evt, r.env)

/-- A thread among others and by itself: the same calls open, the same counter,
the same records. -/
structure Isolated (T : UInt32) (m m' : Machine) : Prop where
  calls : (m.callStacks T).map OpenCall.off = (m'.callStacks T).map OpenCall.off
  counter : DepthMap.count m.depth T = DepthMap.count m'.depth T
  records : ((m.ring.filter (fun r => r.evt.tid = T)).map Record.seen) = m'.ring.map Record.seen

theorem isolated_start (T : UInt32) : Isolated T Machine.start Machine.start := ⟨rfl, rfl, rfl⟩

section Step

variable {S : Session} {att : Attachment} {T : UInt32} {m m' : Machine}

/-- What another thread does is not seen. -/
theorem Isolated.other (h : Isolated T m m') {a : Action} (ha : a.tid ≠ T) :
    Isolated T (Machine.step S att m a) m' := by
  cases a with
  | enter tid off hit =>
      have htid : tid ≠ T := ha
      refine ⟨?_, ?_, ?_⟩
      · rw [Machine.step, Machine.stacks_enter, Function.update_of_ne htid.symm]
        exact h.calls
      · rw [← h.counter]
        rcases Machine.enter_cases S att m tid off hit with ⟨-, hdepth⟩ | ⟨raw, -, -, -, hdepth⟩
        · rw [Machine.step, hdepth]
        · rw [Machine.step, hdepth]
          split
          · exact DepthMap.count_update_ne _ _ htid.symm
          · rfl
      · rw [← h.records]
        rcases Machine.enter_cases S att m tid off hit with ⟨hring, -⟩ | ⟨raw, -, -, hring, -⟩
        · rw [Machine.step, hring]
        · rw [Machine.step, hring, List.filter_append]
          simp [htid]
  | leave tid hit =>
      have htid : tid ≠ T := ha
      refine ⟨?_, ?_, ?_⟩
      · rw [← h.calls, Machine.step]
        cases hstack : m.callStacks tid with
        | nil => rw [Machine.leave_idle hstack]
        | cons call rest => rw [Machine.stacks_leave hstack, Function.update_of_ne htid.symm]
      · rw [← h.counter]
        rcases Machine.leave_cases S att m tid hit with
          ⟨-, hdepth⟩ | ⟨call, rest, raw, -, -, -, -, hdepth⟩
        · rw [Machine.step, hdepth]
        · rw [Machine.step, hdepth]
          exact DepthMap.count_update_ne _ _ htid.symm
      · rw [← h.records]
        rcases Machine.leave_cases S att m tid hit with
          ⟨hring, -⟩ | ⟨call, rest, raw, -, -, -, hring, -⟩
        · rw [Machine.step, hring]
        · rw [Machine.step, hring, List.filter_append]
          simp [returnEvt, Machine.returnCtx, htid]

/-- What the thread itself does, it does in both. -/
theorem Isolated.enter (h : Isolated T m m') (off : UInt64) (hit : Hit)
    (hacc : m.depth.Accepts T) (hacc' : m'.depth.Accepts T) :
    Isolated T (Machine.enter S att m T off hit) (Machine.enter S att m' T off hit) := by
  refine ⟨?_, ?_, ?_⟩
  · rw [Machine.stacks_enter, Machine.stacks_enter, Function.update_self, Function.update_self,
      List.map_cons, List.map_cons, h.calls]
  · by_cases hrec : S.entryLive att off = true ∧ hit.reserved.isSome = true
    · obtain ⟨raw, hraw⟩ := Option.isSome_iff_exists.mp hrec.2
      rw [Machine.enter_recorded raw hrec.1 hraw, Machine.enter_recorded raw hrec.1 hraw]
      dsimp only
      split
      · rw [DepthMap.count_update_self _ _ _ hacc, DepthMap.count_update_self _ _ _ hacc',
          h.counter]
      · exact h.counter
    · rw [Machine.enter_silent hrec, Machine.enter_silent hrec]
      exact h.counter
  · by_cases hrec : S.entryLive att off = true ∧ hit.reserved.isSome = true
    · obtain ⟨raw, hraw⟩ := Option.isSome_iff_exists.mp hrec.2
      rw [Machine.enter_recorded raw hrec.1 hraw, Machine.enter_recorded raw hrec.1 hraw]
      dsimp only
      rw [List.filter_append, List.map_append, List.map_append, h.records, h.counter]
      simp [Record.seen]
    · rw [Machine.enter_silent hrec, Machine.enter_silent hrec]
      exact h.records

theorem Isolated.leave (h : Isolated T m m') (hit : Hit)
    (hacc : m.depth.Accepts T) (hacc' : m'.depth.Accepts T) :
    Isolated T (Machine.leave S att m T hit) (Machine.leave S att m' T hit) := by
  have hcalls := h.calls
  cases hstack : m.callStacks T with
  | nil =>
      rw [hstack, List.map_nil, eq_comm, List.map_eq_nil_iff] at hcalls
      rw [Machine.leave_idle hstack, Machine.leave_idle hcalls]
      exact h
  | cons call rest =>
      rw [hstack, List.map_cons, eq_comm, List.map_eq_cons_iff] at hcalls
      obtain ⟨call', rest', hstack', hoff, hrest⟩ := hcalls
      refine ⟨?_, ?_, ?_⟩
      · rw [Machine.stacks_leave hstack, Machine.stacks_leave hstack', Function.update_self,
          Function.update_self, hrest]
      · by_cases hrec : S.returnLive att call.off = true ∧ hit.reserved.isSome = true
        · obtain ⟨raw, hraw⟩ := Option.isSome_iff_exists.mp hrec.2
          rw [Machine.leave_recorded raw hstack hrec.1 hraw,
            Machine.leave_recorded raw hstack' (hoff ▸ hrec.1) hraw]
          dsimp only
          rw [DepthMap.count_update_self _ _ _ hacc, DepthMap.count_update_self _ _ _ hacc',
            h.counter]
        · rw [Machine.leave_silent hstack hrec, Machine.leave_silent hstack' (hoff ▸ hrec)]
          exact h.counter
      · by_cases hrec : S.returnLive att call.off = true ∧ hit.reserved.isSome = true
        · obtain ⟨raw, hraw⟩ := Option.isSome_iff_exists.mp hrec.2
          rw [Machine.leave_recorded raw hstack hrec.1 hraw,
            Machine.leave_recorded raw hstack' (hoff ▸ hrec.1) hraw]
          dsimp only
          rw [List.filter_append, List.map_append, List.map_append, h.records, h.counter]
          simp [Record.seen, returnEvt, Machine.returnCtx]
        · rw [Machine.leave_silent hstack hrec, Machine.leave_silent hstack' (hoff ▸ hrec)]
          exact h.records

theorem Isolated.own (h : Isolated T m m') {a : Action} (ha : a.tid = T)
    (hacc : m.depth.Accepts T) (hacc' : m'.depth.Accepts T) :
    Isolated T (Machine.step S att m a) (Machine.step S att m' a) := by
  cases a with
  | enter tid off hit =>
      obtain rfl : tid = T := ha
      exact h.enter off hit hacc hacc'
  | leave tid hit =>
      obtain rfl : tid = T := ha
      exact h.leave hit hacc hacc'

end Step

theorem alone_concat (T : UInt32) (acts : List Action) (a : Action) :
    alone T (acts ++ [a]) = alone T acts ++ if a.tid = T then [a] else [] := by
  rw [alone, List.filter_append, List.filter_singleton]
  simp [alone]

/-- A run of one thread needs one place in the depth map. -/
theorem alone_threads (T : UInt32) (acts : List Action) :
    ((alone T acts).map Action.tid).dedup.length ≤ 4096 := by
  have hsub : ((alone T acts).map Action.tid).dedup ⊆ [T] := by
    intro t ht
    rw [List.mem_dedup, List.mem_map] at ht
    obtain ⟨a, ha, rfl⟩ := ht
    simpa using (List.mem_filter.mp ha).2
  have hle := (List.subperm_of_subset (List.nodup_dedup _) hsub).length_le
  rw [List.length_singleton] at hle
  omega

/-- By induction on the run: the other threads are not seen, and the thread
finds in both machines the counter and the open calls that it left. -/
theorem isolated_run (S : Session) (att : Attachment) {acts : List Action} (T : UInt32)
    (hthreads : (acts.map Action.tid).dedup.length ≤ 4096) {before : List Action}
    (hwithin : before <+: acts) :
    Isolated T (Machine.run S att before) (Machine.run S att (alone T before)) := by
  induction before using List.reverseRecOn with
  | nil => exact isolated_start T
  | append_singleton before a ih =>
      have hbefore : before <+: acts := (List.prefix_append _ _).trans hwithin
      rw [Machine.run_concat, alone_concat]
      by_cases ha : a.tid = T
      · rw [if_pos ha, Machine.run_concat]
        have hmem : T ∈ acts.map Action.tid :=
          List.mem_map.mpr ⟨a, hwithin.subset (by simp), ha⟩
        have hmem' : T ∈ (alone T (before ++ [a])).map Action.tid :=
          List.mem_map.mpr ⟨a, List.mem_filter.mpr ⟨by simp, by simpa using ha⟩, ha⟩
        apply (ih hbefore).own ha
        · exact Machine.accepts_of_threads S att hthreads hbefore hmem
        · apply Machine.accepts_of_threads S att (alone_threads T (before ++ [a])) _ hmem'
          rw [alone_concat]
          exact List.prefix_append _ _
      · rw [if_neg ha, List.append_nil]
        exact (ih hbefore).other ha

/-! ### The session of one thread -/

/-- `--tid` names the thread. -/
def Session.Follows (S : Session) (T : UInt32) : Prop :=
  S.cfg.tid ≠ 0 ∧ S.cfg.tid = T.toUInt64.toInt64

theorem Session.Follows.watched_iff {S : Session} {T : UInt32} (h : S.Follows T) (t : UInt32) :
    watched S.cfg t = true ↔ t = T := by
  rw [watched, decide_eq_false h.1, Bool.false_or, decide_eq_true_iff, h.2]
  exact Int64.toBitVec_inj.symm.trans (UInt64.toBitVec_inj.trans UInt32.toUInt64_inj)

/-- A loader keeps nothing of the records it does not watch. -/
theorem follows_stream {S : Session} {T : UInt32} (h : S.Follows T) {recs recs' : List Record}
    (hsame : (recs.filter (fun r => r.evt.tid = T)).map Record.seen = recs'.map Record.seen)
    (t : Tracker) :
    linesFrom S t recs = linesFrom S t recs' ∧
      recs.foldl (fun t r => (handleEvent S r.env t r.evt).1) t =
        recs'.foldl (fun t r => (handleEvent S r.env t r.evt).1) t := by
  induction recs generalizing recs' t with
  | nil =>
      rw [List.filter_nil, List.map_nil, eq_comm, List.map_eq_nil_iff] at hsame
      rw [hsame]
      exact ⟨rfl, rfl⟩
  | cons r rest ih =>
      by_cases hr : r.evt.tid = T
      · rw [List.filter_cons_of_pos (by simpa using hr), List.map_cons, eq_comm,
          List.map_eq_cons_iff] at hsame
        obtain ⟨r', rest', rfl, hseen, hrest⟩ := hsame
        rw [Record.seen, Record.seen, Prod.mk.injEq] at hseen
        obtain ⟨hlines, hstate⟩ := ih hrest.symm (handleEvent S r.env t r.evt).1
        rw [linesFrom, linesFrom, List.foldl_cons, List.foldl_cons, hseen.1, hseen.2, hlines,
          hstate]
        exact ⟨rfl, rfl⟩
      · rw [List.filter_cons_of_neg (by simpa using hr)] at hsame
        have hunwatched : watched S.cfg r.evt.tid = false := by
          rw [← Bool.not_eq_true, h.watched_iff]
          exact hr
        rw [linesFrom, List.foldl_cons, handleEvent_unwatched _ _ _ hunwatched]
        exact ih hsame t

/-- On any run of at most 4096 threads, whatever is attached and whichever
records are lost, a thread leaves the records that it leaves alone. A session
that follows it prints the same lines and learns the same. -/
theorem thread_isolated (S : Session) (att : Attachment) (acts : List Action) (T : UInt32)
    (hthreads : (acts.map Action.tid).dedup.length ≤ 4096) :
    ((Machine.run S att acts).ring.filter (fun r => r.evt.tid = T)).map Record.seen =
        (Machine.run S att (alone T acts)).ring.map Record.seen ∧
      (S.Follows T →
        linesFrom S Tracker.start (Machine.run S att acts).ring =
            linesFrom S Tracker.start (Machine.run S att (alone T acts)).ring ∧
          Tracker.after S (Machine.run S att acts).ring =
            Tracker.after S (Machine.run S att (alone T acts)).ring) := by
  have hisolated := isolated_run S att T hthreads (List.prefix_refl acts)
  exact ⟨hisolated.records, fun hfollows => follows_stream hfollows hisolated.records _⟩

namespace Scenario

/-- `oneOffset` with `--tid 2`. -/
def onlyTwo : Session := { oneOffset with cfg := { config with tid := 2 } }

def twoThreads : List Action :=
  [.enter 1 0 plainHit, .enter 2 0 plainHit, .leave 1 plainHit, .leave 2 plainHit]

theorem follows_onlyTwo : onlyTwo.Follows 2 := ⟨by decide, by decide⟩

end Scenario

open Scenario in
theorem thread_isolated_twoThreads :
    linesFrom onlyTwo Tracker.start (Machine.run onlyTwo .all twoThreads).ring =
        linesFrom onlyTwo Tracker.start
          (Machine.run onlyTwo .all [.enter 2 0 plainHit, .leave 2 plainHit]).ring ∧
      (linesFrom onlyTwo Tracker.start (Machine.run onlyTwo .all twoThreads).ring).length = 2 :=
  ⟨((thread_isolated onlyTwo .all twoThreads 2 (by decide)).2 follows_onlyTwo).1,
    by decide +kernel⟩

end JniProbe
