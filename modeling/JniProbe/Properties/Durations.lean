import JniProbe.Properties.NoReturns

/-!
The durations that are printed. A return subtracts the stamp of the frame it
finds from its own as unsigned numbers, and after losses that frame may belong
to another call. It was stored for an earlier record of the same thread all the
same, so the difference is what passed between the two records.
-/

namespace JniProbe

open GoText GoFormat HeightSlots

/-- The time stamps of each thread id never go back. -/
def StampsOrdered (recs : List Record) : Prop :=
  recs.Pairwise (fun r r' => r.evt.tid = r'.evt.tid → r.evt.ts ≤ r'.evt.ts)

/-- A stored frame bears the stamp of the entry record that wrote its key last. -/
theorem frame_stamp {S : Session} {recs : List Record} {k : Key} {fr : Frame}
    (hfr : (Tracker.after S recs).frames k = some fr) :
    ∃ e ∈ recs, storesFrame S e.evt = true ∧ e.evt.key = k ∧ fr.ts = e.evt.ts ∧
      provenance S recs k = some e.call := by
  induction recs using List.reverseRecOn generalizing k fr with
  | nil => cases hfr
  | append_singleton recs r ih =>
      rw [Tracker.after_concat] at hfr
      rw [provenance_concat]
      rcases handleEvent_frames S r.env _ r.evt hfr with
        ⟨hstores, hk, slot, -, hbare⟩ | ⟨hwrites, fr', hfr', hbare⟩
      · refine ⟨r, List.mem_concat_self, hstores, hk.symm, Frame.ts_of_bare hbare, ?_⟩
        rw [provenanceStep, if_pos hstores, hk, Function.update_self]
      · obtain ⟨e, he, hstored, hkey, hts, hsource⟩ := ih hfr'
        have hsame : fr.ts = fr'.ts := (Frame.ts_of_bare hbare).symm
        refine ⟨e, List.mem_append_left _ he, hstored, hkey, hsame.trans hts, ?_⟩
        rw [provenanceStep_of_not_writes hwrites]
        exact hsource

/-- What a return finds and shows: the frame of an earlier entry of its thread
at its depth, and the time that passed since. -/
structure ShowsElapsed (S : Session) (recs : List Record) (n : Nat) (r : Record) (fr : Frame)
    (e : Record) : Prop where
  earlier : e ∈ recs.take n
  thread : e.evt.tid = r.evt.tid
  depth : e.evt.depth = r.evt.depth
  paired : pairedWith S (recs.take n) r = some e.call
  stamp : fr.ts = e.evt.ts
  le : fr.ts ≤ r.evt.ts
  elapsed : (r.evt.ts - fr.ts).toNat = r.evt.ts.toNat - e.evt.ts.toNat
  shown : ∀ line, (handleEvent S r.env (Tracker.after S (recs.take n)) r.evt).2 = some line →
    ∃ text, line =
      text ++ str "  (" ++ millis (UInt64.ofNat (r.evt.ts.toNat - e.evt.ts.toNat)) ++ str " ms)"

/-- No duration underflows, whatever records are missing from the stream. -/
theorem durations_elapsed (S : Session) (recs : List Record) (hstamps : StampsOrdered recs)
    (n : Nat) (r : Record) (hr : recs[n]? = some r) (htakes : takesFrame S r.evt = true)
    (fr : Frame) (hfr : (Tracker.after S (recs.take n)).frames r.evt.key = some fr) :
    ∃ e, ShowsElapsed S recs n r fr e := by
  obtain ⟨e, he, -, hkey, hts, hsource⟩ := frame_stamp hfr
  have htid : e.evt.tid = r.evt.tid := toInt32_injective (congrArg Prod.fst hkey)
  have hle : e.evt.ts ≤ r.evt.ts := by
    unfold StampsOrdered at hstamps
    rw [split_at hr, List.pairwise_append] at hstamps
    exact hstamps.2.2 e he r List.mem_cons_self htid
  have helapsed : (r.evt.ts - fr.ts).toNat = r.evt.ts.toNat - e.evt.ts.toNat := by
    rw [hts]
    exact UInt64.toNat_sub_of_le _ _ hle
  have hpaired : pairedWith S (recs.take n) r = some e.call := by
    rw [pairedWith, if_pos htakes, hsource]
  refine ⟨e, he, htid, congrArg Prod.snd hkey, hpaired, hts, hts ▸ hle, helapsed, ?_⟩
  intro line hline
  simp only [takesFrame, Bool.and_eq_true, decide_eq_true_eq] at htakes
  rw [handleEvent_return r.env _ r.evt htakes.1.1 htakes.1.2,
    handleReturn_found S r.env _ r.evt htakes.2 hfr] at hline
  rw [← helapsed, UInt64.ofNat_toNat]
  exact ⟨_, returnLine_eq S r.env r.evt hline⟩

namespace Scenario

/-- A record of `FindClass` on the main thread at depth 0. -/
def stamped (kind : UInt32) (ts : UInt64) (call : Nat) : Record :=
  ⟨{ blank with kind := kind, ts := ts }, env none, call⟩

/-- The return of the first call and the entry of the second one are lost. -/
def crossedStream : List Record := [stamped 0 1000000 0, stamped 1 3000000 1]

end Scenario

open Scenario in
/-- The return finds the frame of the other call and shows the time since its entry. -/
theorem crossed_stream_elapsed :
    (∃ fr e, ShowsElapsed (session (table [6])) crossedStream 1 (stamped 1 3000000 1) fr e) ∧
      (handleEvent (session (table [6])) (env none)
        (Tracker.after (session (table [6])) (crossedStream.take 1))
        (stamped 1 3000000 1).evt).2 = some (str "<- FindClass(NULL) = null  (2.000 ms)") := by
  constructor
  · have hstamps : StampsOrdered crossedStream := by
      apply List.pairwise_pair.mpr
      intro _
      decide
    have hstored : ((Tracker.after (session (table [6])) (crossedStream.take 1)).frames
        (stamped 1 3000000 1).evt.key).isSome = true := by
      decide +kernel
    obtain ⟨fr, hfr⟩ := Option.isSome_iff_exists.mp hstored
    exact ⟨fr, durations_elapsed _ crossedStream hstamps 1 _ rfl (by decide +kernel) fr hfr⟩
  · decide +kernel

end JniProbe
