import JniProbe.System.Scenario
import JniProbe.System.Snapshot

/-!
Stale ring bytes never reach the output. A reserved record holds what an
earlier record left there, and the programs do not write all of it; what the
loader makes of the submitted record does not depend on the rest.
-/

namespace JniProbe

open GoText

section Unseen

variable (S : Session) (ctx : ProbeCtx) (raw raw' : Evt) (env : Env)

theorem handleEvent_entry_unseen (hputs : S.PutsSucceed) (d : UInt32) (t : Tracker) :
    handleEvent S env t (entryEvt S.maps d ctx raw) =
      handleEvent S env t (entryEvt S.maps d ctx raw') := by
  have hdepth : (entryEvt S.maps d ctx raw).depth = (entryEvt S.maps d ctx raw').depth := by
    rw [entryEvt_depth, entryEvt_depth]
  have hentry : handleEntry S env t (entryEvt S.maps d ctx raw) =
      handleEntry S env t (entryEvt S.maps d ctx raw') := by
    apply handleEntry_reads
    · rw [entryEvt_ip, entryEvt_ip]
    · rw [entryEvt_ts, entryEvt_ts]
    · intro slot hslot
      rw [entryEvt_ip] at hslot
      exact entryEvt_readsAlike hputs hputs hslot hslot rfl rfl rfl rfl rfl hdepth
  have hkind : ¬ (0 : UInt32) = 1 := by decide
  simp only [handleEvent, entryEvt_tid, entryEvt_kind, hkind, if_false, hentry]

/-- A return record is written in all the fields that are read of it. -/
theorem handleEvent_return_unseen (nd : UInt32) (t : Tracker) :
    handleEvent S env t (returnEvt nd ctx raw) = handleEvent S env t (returnEvt nd ctx raw') := by
  have hreturn : handleReturn S env t (returnEvt nd ctx raw) =
      handleReturn S env t (returnEvt nd ctx raw') := handleReturn_reads S env t rfl rfl rfl rfl
  have htid (raw : Evt) : (returnEvt nd ctx raw).tid = ctx.tid := rfl
  have hkind (raw : Evt) : (returnEvt nd ctx raw).kind = 1 := rfl
  simp only [handleEvent, htid, hkind, if_true, hreturn]

end Unseen

/-- What the loader does with a record, and the two fields of it that are
passed on to the printing of the call stack. -/
def processed (S : Session) (env : Env) (ld : Loader) (e : Evt) : Loader × Int32 × UInt64 :=
  (Loader.step S env ld e, e.stackid, e.caller)

/-- Two probe hits in the same surroundings that find different bytes in their
reserved record: the counter moves alike, and the loader, in any state, with
any filters and caches, is left with the same frames, caches and output. -/
theorem stale_ring_bytes_unseen (S : Session) (hputs : S.PutsSucceed) (depth : DepthMap)
    (ctx : ProbeCtx) (raw raw' : Evt) (env : Env) (ld : Loader) :
    ((upAll S.maps depth ctx (some raw)).1 = (upAll S.maps depth ctx (some raw')).1 ∧
      (upAll S.maps depth ctx (some raw)).2.map (processed S env ld) =
        (upAll S.maps depth ctx (some raw')).2.map (processed S env ld)) ∧
    ((upRet depth ctx (some raw)).1 = (upRet depth ctx (some raw')).1 ∧
      (upRet depth ctx (some raw)).2.map (processed S env ld) =
        (upRet depth ctx (some raw')).2.map (processed S env ld)) := by
  refine ⟨⟨rfl, ?_⟩, ⟨rfl, ?_⟩⟩
  · have hevent := handleEvent_entry_unseen S ctx raw raw' env hputs
      (DepthMap.count depth ctx.tid) ld.tracker
    simp only [upAll, Option.map_some, processed, Loader.step, hevent, entryEvt_stackid,
      entryEvt_caller]
  · have hevent (nd : UInt32) := handleEvent_return_unseen S ctx raw raw' env nd ld.tracker
    have hstackid (nd : UInt32) (raw : Evt) : (returnEvt nd ctx raw).stackid = -1 := rfl
    have hcaller (nd : UInt32) (raw : Evt) : (returnEvt nd ctx raw).caller = 0 := rfl
    simp only [upRet, Option.map_some, processed, Loader.step, hevent, hstackid, hcaller]

namespace Scenario

/-- The three ways of calling a method, at the offsets 0, 1 and 2. -/
def callSlots : Session := session (table [34, 35, 36])

/-- A call whose method id is `0x1000`. -/
def plainCall : Hit := hit #v[0, 0, 0x1000, 0x2000, 0] (some (fun _ => some 0))

/-- A record that an earlier event left in the ring. -/
def stale : Evt :=
  { blank with cap := Vector.replicate ncapWords 7, cap2 := Vector.replicate ncapWords 9 }

end Scenario

open Scenario in
/-- The hit of a call with a `va_list`, in a record that was used before. -/
theorem stale_ring_bytes_unseen_call :
    (upAll callSlots.maps BoundedMap.empty (Machine.entryCtx callSlots 1 1 plainCall)
        (some blank)).2.map (processed callSlots plainCall.env ⟨Tracker.start, ⟨[], []⟩⟩) =
      (upAll callSlots.maps BoundedMap.empty (Machine.entryCtx callSlots 1 1 plainCall)
        (some stale)).2.map (processed callSlots plainCall.env ⟨Tracker.start, ⟨[], []⟩⟩) :=
  (stale_ring_bytes_unseen callSlots
    (callSlots.putsSucceed_of_length (by decide +kernel) (by decide +kernel))
    _ _ blank stale _ _).1.2

end JniProbe
