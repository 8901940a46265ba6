import JniProbe.Lib.ReserveCommit
import JniProbe.System.Refinement

/-!
Probes of different threads overlap. A probe reserves its place in the ring when
it starts, reads and writes the thread's counter in separate map operations, and
submits its record at the end; between any two of these the other threads run.
The reader takes the records in the order of their places and waits at the first
one that is not submitted. Here the traced system takes steps of this size, and
is compared with the machine whose probes run at once.
-/

namespace JniProbe

/-- `up_all` after its reservation. -/
def upAllBody (m : ProbeMaps) (ctx : ProbeCtx) (raw : Evt) : CellBody UInt32 Evt :=
  if (m.hasret.lookup (ctx.ip - m.base)).isSome then
    .read fun pd =>
      let d := pd.getD 0
      .write (d + 1) (.done (entryEvt m d ctx raw))
  else .done (entryEvt m 0 ctx raw)

/-- `up_ret` after its reservation. -/
def upRetBody (ctx : ProbeCtx) (raw : Evt) : CellBody UInt32 Evt :=
  .read fun pd =>
    let d := pd.getD 0
    let nd := if 0 < d then d - 1 else 0
    .write nd (.done (returnEvt nd ctx raw))

abbrev depthCells : CellStore DepthMap UInt32 UInt32 := BoundedMap.cells UInt32 UInt32 4096

/-- Without an entry in `hasret` the counter does not show in the record. -/
theorem entryEvt_untracked {m : ProbeMaps} {ctx : ProbeCtx}
    (h : (m.hasret.lookup (ctx.ip - m.base)).isSome = false) (d d' : UInt32) (raw : Evt) :
    entryEvt m d ctx raw = entryEvt m d' ctx raw := by
  have hoff : (entryRecord raw ctx).ip = ctx.ip := rfl
  simp only [entryEvt, hoff, h, Bool.false_eq_true, if_false]

/-- The body run at once is the program. -/
theorem upAll_exec (m : ProbeMaps) (depth : DepthMap) (ctx : ProbeCtx) (raw : Evt) :
    upAll m depth ctx (some raw) =
      (((upAllBody m ctx raw).exec depthCells ctx.tid depth).1,
        some ((upAllBody m ctx raw).exec depthCells ctx.tid depth).2) := by
  cases htracked : (m.hasret.lookup (ctx.ip - m.base)).isSome with
  | true =>
      simp only [upAll, upAllBody, htracked, if_true]
      rfl
  | false =>
      simp only [upAll, upAllBody, htracked, Bool.false_eq_true, if_false]
      rw [entryEvt_untracked htracked _ 0]
      rfl

theorem upRet_exec (depth : DepthMap) (ctx : ProbeCtx) (raw : Evt) :
    upRet depth ctx (some raw) =
      (((upRetBody ctx raw).exec depthCells ctx.tid depth).1,
        some ((upRetBody ctx raw).exec depthCells ctx.tid depth).2) := rfl

/-! ### The interleaved system -/

/-- A thread enters or leaves a function and reaches the probe there, or a
thread inside a probe does its next operation. -/
inductive ProbeMove where
  | reach (a : Action)
  | tick (tid : UInt32)

/-- The open calls with their serial numbers and offsets, the counters and the
ring with the running probes. `reached` lists what the threads have done so far;
nothing reads it but the statements. -/
structure Interleaved where
  calls : UInt32 → List (Nat × UInt64)
  next : Nat
  log : ReserveLog DepthMap UInt32 UInt32 Record
  reached : List Action

namespace Interleaved

def start : Interleaved := ⟨fun _ => [], 0, ReserveLog.empty BoundedMap.empty, []⟩

/-- `bpf_ringbuf_reserve`: a probe without a record ends here. -/
def reserve (log : ReserveLog DepthMap UInt32 UInt32 Record) (tid : UInt32) (hit : Hit)
    (call : Nat) (body : Evt → CellBody UInt32 Evt) :
    ReserveLog DepthMap UInt32 UInt32 Record :=
  match hit.reserved with
  | none => log
  | some raw => log.reserve tid ((body raw).map (⟨·, hit.env, call⟩))

def enter (S : Session) (att : Attachment) (c : Interleaved) (tid : UInt32) (off : UInt64)
    (hit : Hit) : Interleaved where
  calls := Function.update c.calls tid ((c.next, off) :: c.calls tid)
  next := c.next + 1
  log :=
    if S.entryLive att off then
      reserve c.log tid hit c.next (upAllBody S.maps (Machine.entryCtx S tid off hit))
    else c.log
  reached := c.reached ++ [.enter tid off hit]

def leave (S : Session) (att : Attachment) (c : Interleaved) (tid : UInt32) (hit : Hit) :
    Interleaved :=
  let reached := c.reached ++ [.leave tid hit]
  match c.calls tid with
  | [] => { c with reached }
  | (call, off) :: rest =>
    { c with
      calls := Function.update c.calls tid rest
      log :=
        if S.returnLive att off then
          reserve c.log tid hit call (upRetBody (Machine.returnCtx tid hit))
        else c.log
      reached }

def step (S : Session) (att : Attachment) (c : Interleaved) : ProbeMove → Interleaved
  | .tick tid => { c with log := c.log.tick depthCells tid }
  | .reach a =>
    match c.log.running a.tid with
    | some _ => c -- the thread is still inside its last probe
    | none =>
      match a with
      | .enter tid off hit => enter S att c tid off hit
      | .leave tid hit => leave S att c tid hit

def run (S : Session) (att : Attachment) (moves : List ProbeMove) : Interleaved :=
  Runs.run (step S att) start moves

/-- The records that the loader can read. -/
def visible (c : Interleaved) : List Record := c.log.visible

theorem run_concat (S : Session) (att : Attachment) (moves : List ProbeMove) (mv : ProbeMove) :
    run S att (moves ++ [mv]) = step S att (run S att moves) mv :=
  Runs.run_concat (step S att) start moves mv

theorem run_append (S : Session) (att : Attachment) (moves more : List ProbeMove) :
    run S att (moves ++ more) = Runs.run (step S att) (run S att moves) more :=
  Runs.run_append (step S att) start moves more

/-! ### Against the machine whose probes run at once -/

/-- The interleaved system against the machine that takes the actions in the
order in which their probes were reached. -/
structure Follows {keys : List UInt32} (hkeys : keys.dedup.length ≤ 4096) (c : Interleaved)
    (m : Machine) : Prop where
  calls : ∀ t, c.calls t = (m.callStacks t).map (fun call => (call.id, call.off))
  next : c.next = m.next
  log : c.log.Linearized (BoundedMap.cellsRoomy keys hkeys) m.depth m.ring

section Step

variable {S : Session} {att : Attachment} {keys : List UInt32}
  {hkeys : keys.dedup.length ≤ 4096} {c : Interleaved} {m : Machine} {tid : UInt32}

theorem follows_start : Follows hkeys start Machine.start where
  calls t := rfl
  next := rfl
  log := by
    apply ReserveLog.linearized_empty
    intro k hk
    simp [BoundedMap.empty] at hk

/-- A probe that reserves a place against the same probe run at once. -/
theorem linearized_reserve {log : ReserveLog DepthMap UInt32 UInt32 Record} {depth : DepthMap}
    {ring : List Record} (h : log.Linearized (BoundedMap.cellsRoomy keys hkeys) depth ring)
    (hidle : log.running tid = none) (htid : tid ∈ keys) (hit : Hit) (call : Nat)
    {body : Evt → CellBody UInt32 Evt} (program : Option Evt → DepthMap × Option Evt)
    (hnone : program none = (depth, none))
    (hsome : ∀ raw, program (some raw) =
      (((body raw).exec depthCells tid depth).1, some ((body raw).exec depthCells tid depth).2)) :
    (reserve log tid hit call body).Linearized (BoundedMap.cellsRoomy keys hkeys)
      (program hit.reserved).1
      (ring ++ ((program hit.reserved).2.map (fun e => (⟨e, hit.env, call⟩ : Record))).toList) := by
  cases hres : hit.reserved with
  | none =>
      simp only [reserve, hres, hnone, Option.map_none, Option.toList_none, List.append_nil]
      exact h
  | some raw =>
      have hnext := h.reserve hidle htid ((body raw).map (⟨·, hit.env, call⟩))
      rw [CellBody.exec_map] at hnext
      simp only [reserve, hres, hsome, Option.map_some, Option.toList_some]
      exact hnext

theorem calls_update {calls : UInt32 → List (Nat × UInt64)} {opened : UInt32 → List OpenCall}
    (h : ∀ t, calls t = (opened t).map (fun call => (call.id, call.off)))
    {pairs : List (Nat × UInt64)} {stack : List OpenCall}
    (hnew : pairs = stack.map (fun call => (call.id, call.off))) (t : UInt32) :
    Function.update calls tid pairs t =
      (Function.update opened tid stack t).map (fun call => (call.id, call.off)) := by
  by_cases ht : t = tid
  · subst ht
    rw [Function.update_self, Function.update_self, hnew]
  · rw [Function.update_of_ne ht, Function.update_of_ne ht, h]

theorem Follows.enter (h : Follows hkeys c m) (hidle : c.log.running tid = none)
    (htid : tid ∈ keys) (off : UInt64) (hit : Hit) :
    Follows hkeys (c.enter S att tid off hit) (Machine.enter S att m tid off hit) := by
  have hstack : (Machine.enter S att m tid off hit).callStacks =
      Function.update m.callStacks tid
        (⟨m.next, off, Machine.counts S att m tid off hit⟩ :: m.callStacks tid) :=
    Machine.stacks_enter
  refine ⟨?_, ?_, ?_⟩
  · intro t
    rw [hstack]
    apply calls_update h.calls
    rw [List.map_cons, h.calls, h.next]
  · have hnext : (Machine.enter S att m tid off hit).next = m.next + 1 := by
      unfold Machine.enter
      dsimp only
      split <;> rfl
    rw [hnext, ← h.next]
    rfl
  · unfold Interleaved.enter Machine.enter
    dsimp only
    split
    · have hpair := linearized_reserve h.log hidle htid hit m.next
        (upAll S.maps m.depth (Machine.entryCtx S tid off hit)) rfl
        (fun raw => upAll_exec S.maps m.depth (Machine.entryCtx S tid off hit) raw)
      rw [h.next]
      exact hpair
    · exact h.log

theorem Follows.leave (h : Follows hkeys c m) (hidle : c.log.running tid = none)
    (htid : tid ∈ keys) (hit : Hit) :
    Follows hkeys (c.leave S att tid hit) (Machine.leave S att m tid hit) := by
  have hcalls := h.calls tid
  cases hstack : m.callStacks tid with
  | nil =>
      rw [hstack, List.map_nil] at hcalls
      rw [Machine.leave_idle hstack]
      simp only [Interleaved.leave, hcalls]
      exact ⟨h.calls, h.next, h.log⟩
  | cons call rest =>
      rw [hstack, List.map_cons] at hcalls
      simp only [Interleaved.leave, hcalls]
      refine ⟨?_, ?_, ?_⟩
      · intro t
        rw [Machine.stacks_leave hstack]
        exact calls_update h.calls rfl t
      · have hnext : (Machine.leave S att m tid hit).next = m.next := by
          simp only [Machine.leave, hstack]
          split <;> rfl
        rw [hnext]
        exact h.next
      · simp only [Machine.leave, hstack]
        split
        · exact linearized_reserve h.log hidle htid hit call.id
            (upRet m.depth (Machine.returnCtx tid hit)) rfl
            (fun raw => upRet_exec m.depth (Machine.returnCtx tid hit) raw)
        · exact h.log

/-- A move is an operation of a running probe, or waits for the probe of its
thread, or takes its action. -/
theorem step_cases (S : Session) (att : Attachment) (c : Interleaved) (mv : ProbeMove) :
    (∃ tid, mv = .tick tid ∧ step S att c mv = { c with log := c.log.tick depthCells tid }) ∨
      step S att c mv = c ∨
      ∃ a, mv = .reach a ∧ c.log.running a.tid = none ∧
        (step S att c mv).reached = c.reached ++ [a] := by
  cases mv with
  | tick tid => exact Or.inl ⟨tid, rfl, rfl⟩
  | reach a =>
      right
      cases hrun : c.log.running a.tid with
      | some held =>
          left
          simp only [step, hrun]
      | none =>
          right
          refine ⟨a, rfl, hrun, ?_⟩
          cases a with
          | enter tid off hit =>
              simp only [step, hrun]
              rfl
          | leave tid hit =>
              simp only [step, hrun, Interleaved.leave]
              split <;> rfl

theorem Follows.step (h : Follows hkeys c m) (a : Action) (hidle : c.log.running a.tid = none)
    (htid : a.tid ∈ keys) :
    Follows hkeys (Interleaved.step S att c (.reach a)) (Machine.step S att m a) := by
  simp only [Interleaved.step, hidle]
  cases a with
  | enter tid off hit => exact h.enter hidle htid off hit
  | leave tid hit => exact h.leave hidle htid hit

end Step

/-- Along every interleaving of at most 4096 threads, the ring is filled as if
each probe had run at once when it reserved its place. -/
theorem follows_run (S : Session) (att : Attachment) {keys : List UInt32}
    (hkeys : keys.dedup.length ≤ 4096) (moves : List ProbeMove)
    (hthreads : ∀ a ∈ (run S att moves).reached, a.tid ∈ keys) :
    Follows hkeys (run S att moves) (Machine.run S att (run S att moves).reached) := by
  induction moves using List.reverseRecOn with
  | nil => exact follows_start
  | append_singleton moves mv ih =>
      rw [run_concat] at hthreads ⊢
      rcases step_cases S att (run S att moves) mv with
        ⟨tid, -, hticked⟩ | hwaits | ⟨a, rfl, hidle, hadded⟩
      · rw [hticked] at hthreads ⊢
        have hold := ih hthreads
        exact ⟨hold.calls, hold.next, hold.log.tick tid⟩
      · rw [hwaits] at hthreads ⊢
        exact ih hthreads
      · rw [hadded] at hthreads ⊢
        have hold := ih (fun b hb => hthreads b (List.mem_append_left _ hb))
        rw [Machine.run_concat]
        exact hold.step a hidle (hthreads a (by simp))

end Interleaved

end JniProbe
