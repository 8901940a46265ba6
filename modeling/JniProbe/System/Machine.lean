import JniProbe.Lib.Runs
import JniProbe.Loader.Trace

/-!
The traced system: a target whose threads enter and leave JNI functions, the
BPF programs that run at its probes, and the ring they write to. A thread can
only leave the call it entered last, so every run is properly nested. Each
action carries what surrounds its probe hit: registers, memory, the outcome of
`bpf_ringbuf_reserve`, and the environment in which the loader will process
the record. A call gets a serial number when it is entered; it labels the
records of the call and nothing reads it but the statements about pairing.
-/

namespace JniProbe

/-- The outcomes of the individual attachments in `runProbe`. -/
structure Attachment where
  uprobe : UInt64 → Bool
  uretprobe : UInt64 → Bool

def Attachment.all : Attachment := ⟨fun _ => true, fun _ => true⟩

namespace Session

variable (S : Session) (att : Attachment)

/-- `up_all` is live at this offset. -/
def entryLive (off : UInt64) : Bool := decide (off ∈ S.offsets) && att.uprobe off

/-- `up_ret` is live at this offset. -/
def returnLive (off : UInt64) : Bool := S.retOffsets.contains off && att.uretprobe off

def hasret (off : UInt64) : Bool := (S.maps.hasret.lookup off).isSome

end Session

/-- What surrounds a probe hit. -/
structure Hit where
  ctx : ProbeCtx
  reserved : Option Evt
  env : Env

inductive Action where
  | enter (tid : UInt32) (off : UInt64) (hit : Hit)
  | leave (tid : UInt32) (hit : Hit)

def Action.tid : Action → UInt32
  | .enter tid _ _ => tid
  | .leave tid _ => tid

def Action.hit : Action → Hit
  | .enter _ _ hit => hit
  | .leave _ hit => hit

/-- An open call: its serial number, the function entered, and whether its
entry hit raised the thread's counter. -/
structure OpenCall where
  id : Nat
  off : UInt64
  counted : Bool

structure Record where
  evt : Evt
  env : Env
  call : Nat

structure Machine where
  callStacks : UInt32 → List OpenCall
  next : Nat
  depth : DepthMap
  ring : List Record

namespace Machine

def start : Machine := ⟨fun _ => [], 0, BoundedMap.empty, []⟩

def entryCtx (S : Session) (tid : UInt32) (off : UInt64) (hit : Hit) : ProbeCtx :=
  { hit.ctx with tid := tid, ip := off + S.base }

def returnCtx (tid : UInt32) (hit : Hit) : ProbeCtx := { hit.ctx with tid := tid }

/-- Whether entering `off` on thread `tid` raises the thread's counter. -/
def counts (S : Session) (att : Attachment) (m : Machine) (tid : UInt32) (off : UInt64)
    (hit : Hit) : Bool :=
  S.entryLive att off && hit.reserved.isSome && S.hasret off && decide (m.depth.Accepts tid)

def submit (m : Machine) (call : Nat) (env : Env) (depth : DepthMap) (evt : Option Evt) :
    Machine :=
  { m with depth := depth, ring := m.ring ++ (evt.map (fun e => ⟨e, env, call⟩)).toList }

def enter (S : Session) (att : Attachment) (m : Machine) (tid : UInt32) (off : UInt64)
    (hit : Hit) : Machine :=
  let call : OpenCall := ⟨m.next, off, counts S att m tid off hit⟩
  let pushed : Machine :=
    { m with
      callStacks := Function.update m.callStacks tid (call :: m.callStacks tid)
      next := m.next + 1 }
  if S.entryLive att off then
    let (depth, evt) := upAll S.maps m.depth (entryCtx S tid off hit) hit.reserved
    pushed.submit m.next hit.env depth evt
  else pushed

def leave (S : Session) (att : Attachment) (m : Machine) (tid : UInt32) (hit : Hit) : Machine :=
  match m.callStacks tid with
  | [] => m -- no JNI call of this thread is open
  | call :: rest =>
    let popped : Machine := { m with callStacks := Function.update m.callStacks tid rest }
    if S.returnLive att call.off then
      let (depth, evt) := upRet m.depth (returnCtx tid hit) hit.reserved
      popped.submit call.id hit.env depth evt
    else popped

def step (S : Session) (att : Attachment) (m : Machine) : Action → Machine
  | .enter tid off hit => enter S att m tid off hit
  | .leave tid hit => leave S att m tid hit

def run (S : Session) (att : Attachment) (acts : List Action) : Machine :=
  Runs.run (step S att) start acts

/-- The counted calls open on a thread, outermost first. -/
def counted (m : Machine) (tid : UInt32) : List Nat :=
  ((m.callStacks tid).reverse.filter (·.counted)).map (·.id)

/-! ### What a step can do -/

section Steps

variable {S : Session} {att : Attachment} {m : Machine} {tid : UInt32} {off : UInt64} {hit : Hit}

theorem entryCtx_offset : (entryCtx S tid off hit).ip - S.base = off := by
  simp [entryCtx]

@[simp] theorem entryCtx_tid : (entryCtx S tid off hit).tid = tid := rfl

theorem entryEvt_depth_at (d : UInt32) (raw : Evt) :
    (entryEvt S.maps d (entryCtx S tid off hit) raw).depth =
      if S.hasret off then d.toInt32 else -1 := by
  have hoff : (entryCtx S tid off hit).ip - S.maps.base = off := entryCtx_offset
  rw [entryEvt_depth, hoff]
  rfl

theorem counts_iff : counts S att m tid off hit = true ↔
    S.entryLive att off = true ∧ hit.reserved.isSome = true ∧ S.hasret off = true ∧
      m.depth.Accepts tid := by
  simp [counts, and_assoc]

/-- No record: the entry probe is not live or the reservation fails. -/
theorem enter_silent (h : ¬ (S.entryLive att off = true ∧ hit.reserved.isSome = true)) :
    enter S att m tid off hit =
      { m with
        callStacks := Function.update m.callStacks tid (⟨m.next, off, false⟩ :: m.callStacks tid)
        next := m.next + 1 } := by
  have hcounts : counts S att m tid off hit = false := by
    rw [Bool.eq_false_iff, ne_eq, counts_iff]
    rintro ⟨hlive, hres, -⟩
    exact h ⟨hlive, hres⟩
  unfold enter
  rw [hcounts]
  by_cases hlive : S.entryLive att off = true
  · have hres : hit.reserved = none := by
      cases hr : hit.reserved with
      | none => rfl
      | some raw => exact absurd ⟨hlive, by simp [hr]⟩ h
    simp [hlive, hres, upAll, submit]
  · simp [hlive]

/-- An entry record, with the counter raised when the offset is tracked. -/
theorem enter_recorded (raw : Evt) (hlive : S.entryLive att off = true)
    (hres : hit.reserved = some raw) :
    enter S att m tid off hit =
      { callStacks := Function.update m.callStacks tid
          (⟨m.next, off, counts S att m tid off hit⟩ :: m.callStacks tid)
        next := m.next + 1
        depth :=
          if S.hasret off then m.depth.update tid (DepthMap.count m.depth tid + 1) else m.depth
        ring := m.ring ++ [⟨entryEvt S.maps (DepthMap.count m.depth tid)
          (entryCtx S tid off hit) raw, hit.env, m.next⟩] } := by
  have hoff : (entryCtx S tid off hit).ip - S.maps.base = off := entryCtx_offset
  have htid : (entryCtx S tid off hit).tid = tid := rfl
  simp only [enter, hlive, hres, upAll, submit, Session.hasret, hoff, htid, if_true,
    Option.map_some, Option.toList_some]
  rfl

theorem leave_idle (h : m.callStacks tid = []) : leave S att m tid hit = m := by
  simp [leave, h]

/-- No record: the return probe is not live or the reservation fails. -/
theorem leave_silent {call : OpenCall} {rest : List OpenCall}
    (hstack : m.callStacks tid = call :: rest)
    (h : ¬ (S.returnLive att call.off = true ∧ hit.reserved.isSome = true)) :
    leave S att m tid hit = { m with callStacks := Function.update m.callStacks tid rest } := by
  unfold leave
  rw [hstack]
  by_cases hlive : S.returnLive att call.off = true
  · have hres : hit.reserved = none := by
      cases hr : hit.reserved with
      | none => rfl
      | some raw => exact absurd ⟨hlive, by simp [hr]⟩ h
    simp [hlive, hres, upRet, submit]
  · simp [hlive]

/-- The counter after a return hit that starts from `d`. -/
def dropOne (d : UInt32) : UInt32 := if 0 < d then d - 1 else 0

/-- A return record, with the counter lowered. -/
theorem leave_recorded {call : OpenCall} {rest : List OpenCall} (raw : Evt)
    (hstack : m.callStacks tid = call :: rest) (hlive : S.returnLive att call.off = true)
    (hres : hit.reserved = some raw) :
    leave S att m tid hit =
      { m with
        callStacks := Function.update m.callStacks tid rest
        depth := m.depth.update tid (dropOne (DepthMap.count m.depth tid))
        ring := m.ring ++ [⟨returnEvt (dropOne (DepthMap.count m.depth tid))
          (returnCtx tid hit) raw, hit.env, call.id⟩] } := by
  have htid : (returnCtx tid hit).tid = tid := rfl
  simp [leave, hstack, hlive, hres, upRet, submit, dropOne, htid]

/-- The record that entering `off` submits. -/
abbrev enterRecord (S : Session) (m : Machine) (tid : UInt32) (off : UInt64) (hit : Hit)
    (raw : Evt) : Record :=
  ⟨entryEvt S.maps (DepthMap.count m.depth tid) (entryCtx S tid off hit) raw, hit.env, m.next⟩

/-- The record that leaving `call` submits. -/
abbrev leaveRecord (m : Machine) (tid : UInt32) (hit : Hit) (call : Nat) (raw : Evt) : Record :=
  ⟨returnEvt (dropOne (DepthMap.count m.depth tid)) (returnCtx tid hit) raw, hit.env, call⟩

/-- Entering a function writes nothing, or one record and the counter of a
tracked offset. -/
theorem enter_cases (S : Session) (att : Attachment) (m : Machine) (tid : UInt32) (off : UInt64)
    (hit : Hit) :
    ((enter S att m tid off hit).ring = m.ring ∧ (enter S att m tid off hit).depth = m.depth) ∨
      ∃ raw, S.entryLive att off = true ∧ hit.reserved = some raw ∧
        (enter S att m tid off hit).ring = m.ring ++ [enterRecord S m tid off hit raw] ∧
        (enter S att m tid off hit).depth =
          if S.hasret off then m.depth.update tid (DepthMap.count m.depth tid + 1)
          else m.depth := by
  by_cases hrec : S.entryLive att off = true ∧ hit.reserved.isSome = true
  · obtain ⟨raw, hraw⟩ := Option.isSome_iff_exists.mp hrec.2
    right
    rw [enter_recorded raw hrec.1 hraw]
    exact ⟨raw, hrec.1, hraw, rfl, rfl⟩
  · left
    rw [enter_silent hrec]
    exact ⟨rfl, rfl⟩

/-- Leaving a function writes nothing, or one record and the lowered counter. -/
theorem leave_cases (S : Session) (att : Attachment) (m : Machine) (tid : UInt32) (hit : Hit) :
    ((leave S att m tid hit).ring = m.ring ∧ (leave S att m tid hit).depth = m.depth) ∨
      ∃ call rest raw, m.callStacks tid = call :: rest ∧ S.returnLive att call.off = true ∧
        hit.reserved = some raw ∧
        (leave S att m tid hit).ring = m.ring ++ [leaveRecord m tid hit call.id raw] ∧
        (leave S att m tid hit).depth =
          m.depth.update tid (dropOne (DepthMap.count m.depth tid)) := by
  cases hstack : m.callStacks tid with
  | nil =>
      left
      rw [leave_idle hstack]
      exact ⟨rfl, rfl⟩
  | cons call rest =>
      by_cases hrec : S.returnLive att call.off = true ∧ hit.reserved.isSome = true
      · obtain ⟨raw, hraw⟩ := Option.isSome_iff_exists.mp hrec.2
        right
        rw [leave_recorded raw hstack hrec.1 hraw]
        exact ⟨call, rest, raw, rfl, hrec.1, hraw, rfl, rfl⟩
      · left
        rw [leave_silent hstack hrec]
        exact ⟨rfl, rfl⟩

/-- A step writes at most one record. -/
theorem step_ring (S : Session) (att : Attachment) (m : Machine) (a : Action) :
    (step S att m a).ring = m.ring ∨ ∃ r, (step S att m a).ring = m.ring ++ [r] := by
  cases a with
  | enter tid off hit =>
      rcases enter_cases S att m tid off hit with ⟨hsame, -⟩ | ⟨raw, -, -, hring, -⟩
      · exact Or.inl hsame
      · exact Or.inr ⟨_, hring⟩
  | leave tid hit =>
      rcases leave_cases S att m tid hit with ⟨hsame, -⟩ | ⟨call, rest, raw, -, -, -, hring, -⟩
      · exact Or.inl hsame
      · exact Or.inr ⟨_, hring⟩

end Steps

theorem ring_grows (S : Session) (att : Attachment) {acts before : List Action}
    (hwithin : before <+: acts) : (run S att before).ring <+: (run S att acts).ring := by
  obtain ⟨after, rfl⟩ := hwithin
  have hrun : run S att (before ++ after) = Runs.run (step S att) (run S att before) after :=
    Runs.run_append _ _ _ _
  rw [hrun]
  exact Runs.log_grows (step S att) Machine.ring (step_ring S att) _ after

/-- Every prefix of the ring is the ring of a prefix of the run. -/
theorem ring_prefix (S : Session) (att : Attachment) (acts : List Action) (n : Nat)
    (hn : n ≤ (run S att acts).ring.length) :
    ∃ before, before <+: acts ∧ (run S att before).ring = (run S att acts).ring.take n :=
  Runs.log_prefix (step S att) Machine.ring (step_ring S att) start acts n (Nat.zero_le n) hn

end Machine

end JniProbe
