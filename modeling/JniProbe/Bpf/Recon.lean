import JniProbe.Lib.BoundedMap
import JniProbe.Lib.UserMemory

/-!
The two BPF programs of `recon.bpf.c`. A probe hit reserves a ring record,
which may fail; the record's memory is not initialised, so the programs are
functions of its old contents as well. The only state they share is the
`depth` map from thread id to the number of active tracked frames.
-/

namespace JniProbe

abbrev nargs : Nat := 5

instance : NeZero nargs := ⟨by decide⟩

abbrev ncapWords : Nat := 16

/-- `struct evt_t`, decoded by the loader as `reconEvt`. -/
structure Evt where
  pid : UInt32
  tid : UInt32
  kind : UInt32
  pad : UInt32
  ip : UInt64
  rc : UInt64
  ts : UInt64
  depth : Int32
  pad2 : UInt32
  caller : UInt64
  a : Vector UInt64 nargs
  ncap : UInt32
  argkind : UInt32
  res1 : UInt32
  res2 : UInt32
  cap : Vector UInt64 ncapWords
  cap2 : Vector UInt64 ncapWords
  vgr : UInt64
  vgoff : Int64
  vstk : UInt64
  stackid : Int32
  pad3 : UInt32
  deriving DecidableEq

/-- What a probe sees: the current thread, its registers, the clock, the
thread's memory and the result of `bpf_get_stackid`. -/
structure ProbeCtx where
  pid : UInt32
  tid : UInt32
  ip : UInt64
  ret : UInt64
  parm : Vector UInt64 nargs
  ts : UInt64
  mem : UserMemory
  stackid : Int32

abbrev DepthMap := BoundedMap UInt32 UInt32 4096

/-- The maps that the loader fills before it attaches the probes. -/
structure ProbeMaps where
  base : UInt64
  wantStack : UInt64
  argkind : BoundedMap UInt64 UInt8 2048
  argidx : BoundedMap UInt64 UInt8 2048
  hasret : BoundedMap UInt64 UInt8 8192

/-- `bpf_probe_read_user` of one word: a fault leaves zero. -/
def probeRead (mem : UserMemory) (p : UInt64) : UInt64 := ((mem.word p 8).getD 0).toUInt64

/-- The four words of an AArch64 `va_list`, read in one go. -/
def probeReadVaList (mem : UserMemory) (p : UInt64) : Vector UInt64 4 :=
  if (mem.readRun p 32).length = 32 then
    Vector.ofFn (fun i => probeRead mem (p + i.val.toUInt64 * 8))
  else Vector.replicate 4 0

def captureWords (mem : UserMemory) (p : UInt64) : Vector UInt64 ncapWords :=
  Vector.ofFn (fun i => probeRead mem (p + i.val.toUInt64 * 8))

def capture (mem : UserMemory) (e : Evt) (p : UInt64) (k : UInt8) (ix : Fin nargs) : Evt :=
  let e := { e with argkind := k.toUInt32, ncap := 16 }
  if k = 1 then { e with cap := captureWords mem p }
  else if k = 2 then
    let st := probeReadVaList mem p
    { e with
      vstk := st[0]
      vgr := st[1]
      vgoff := st[3].toUInt32.toInt32.toInt64
      cap := captureWords mem (st[1] - 128)
      cap2 := captureWords mem st[0] }
  else if k = 3 then
    let next := if h : ix.val + 1 < nargs then e.a[ix.val + 1] else 0
    { e with
      ncap := 5 - ix.val.toUInt32
      cap := (e.cap.set 0 (e.a.get ix)).set 1 next }
  else e

/-- The stores of `up_all` before it consults any map. -/
def entryRecord (raw : Evt) (ctx : ProbeCtx) : Evt :=
  { raw with
    pid := ctx.pid
    tid := ctx.tid
    kind := 0
    pad := 0
    ip := ctx.ip
    rc := 0
    ts := ctx.ts
    depth := -1
    pad2 := 0
    caller := ctx.ret
    a := ctx.parm
    ncap := 0
    argkind := 0
    vgr := 0
    vgoff := 0
    vstk := 0
    stackid := -1
    pad3 := 0 }

/-- The snapshot of a call function's arguments, when the loader has recorded
the kind and the register of the offset. -/
def captureArgs (m : ProbeMaps) (mem : UserMemory) (off : UInt64) (e : Evt) : Evt :=
  match m.argkind.lookup off, m.argidx.lookup off with
  | some k, some ix =>
    if h : k ≠ 0 ∧ ix.toNat < nargs then capture mem e e.a[ix.toNat] k ⟨ix.toNat, h.2⟩ else e
  | _, _ => e

/-- The record of an entry hit of a thread whose counter is `d`. -/
def entryEvt (m : ProbeMaps) (d : UInt32) (ctx : ProbeCtx) (raw : Evt) : Evt :=
  let e := entryRecord raw ctx
  let off := e.ip - m.base
  let e := if (m.hasret.lookup off).isSome then { e with depth := d.toInt32 } else e
  let e := captureArgs m ctx.mem off e
  if m.wantStack ≠ 0 then { e with stackid := ctx.stackid } else e

/-- The counter a probe hit reads; a thread without an entry counts from zero. -/
def DepthMap.count (depth : DepthMap) (tid : UInt32) : UInt32 := (depth.lookup tid).getD 0

def upAll (m : ProbeMaps) (depth : DepthMap) (ctx : ProbeCtx) (reserved : Option Evt) :
    DepthMap × Option Evt :=
  match reserved with
  | none => (depth, none)
  | some raw =>
    let d := DepthMap.count depth ctx.tid
    let tracked := (m.hasret.lookup (ctx.ip - m.base)).isSome
    (if tracked then depth.update ctx.tid (d + 1) else depth, some (entryEvt m d ctx raw))

/-- The record of a return hit that leaves the counter at `nd`. The probe
address is the return address, so the record names no slot. -/
def returnEvt (nd : UInt32) (ctx : ProbeCtx) (raw : Evt) : Evt :=
  { raw with
    pid := ctx.pid
    tid := ctx.tid
    kind := 1
    pad := 0
    ip := ctx.ip
    rc := ctx.parm.get 0
    ts := ctx.ts
    depth := nd.toInt32
    pad2 := 0
    caller := 0
    a := Vector.replicate nargs 0
    ncap := 0
    argkind := 0
    vgr := 0
    vgoff := 0
    vstk := 0
    stackid := -1
    pad3 := 0 }

def upRet (depth : DepthMap) (ctx : ProbeCtx) (reserved : Option Evt) :
    DepthMap × Option Evt :=
  match reserved with
  | none => (depth, none)
  | some raw =>
    let d := DepthMap.count depth ctx.tid
    let nd := if 0 < d then d - 1 else 0
    (depth.update ctx.tid nd, some (returnEvt nd ctx raw))

/-! ### What a hit does, field by field -/

/-- The fields of a record that pairing and the name caches depend on. -/
def Evt.header (e : Evt) : UInt32 × UInt32 × UInt64 × UInt64 × Int32 × UInt64 × Vector UInt64 5 :=
  (e.tid, e.kind, e.ip, e.ts, e.depth, e.caller, e.a)

/-- `capture` writes argument words only. -/
theorem capture_header (mem : UserMemory) (e : Evt) (p : UInt64) (k : UInt8) (ix : Fin nargs) :
    (capture mem e p k ix).header = e.header := by
  unfold capture
  split
  · rfl
  · split
    · rfl
    · split <;> rfl

theorem capture_stackid (mem : UserMemory) (e : Evt) (p : UInt64) (k : UInt8) (ix : Fin nargs) :
    (capture mem e p k ix).stackid = e.stackid := by
  unfold capture
  split
  · rfl
  · split
    · rfl
    · split <;> rfl

theorem captureArgs_header (m : ProbeMaps) (mem : UserMemory) (off : UInt64) (e : Evt) :
    (captureArgs m mem off e).header = e.header := by
  unfold captureArgs
  split
  · split
    · exact capture_header mem e _ _ _
    · rfl
  · rfl

/-- An entry record identifies its thread and function and carries the
registers; its depth is the counter before the increment, or `-1`. -/
theorem entryEvt_header (m : ProbeMaps) (d : UInt32) (ctx : ProbeCtx) (raw : Evt) :
    (entryEvt m d ctx raw).header = (ctx.tid, 0, ctx.ip, ctx.ts,
      (if (m.hasret.lookup (ctx.ip - m.base)).isSome then d.toInt32 else -1),
      ctx.ret, ctx.parm) := by
  have hstack (e : Evt) : (if m.wantStack ≠ 0 then { e with stackid := ctx.stackid }
      else e).header = e.header := by
    split <;> rfl
  unfold entryEvt
  rw [hstack, captureArgs_header]
  by_cases htracked : (m.hasret.lookup (ctx.ip - m.base)).isSome = true
  · simp [entryRecord, Evt.header, htracked]
  · simp [entryRecord, Evt.header, htracked]

section EntryFields

variable (m : ProbeMaps) (d : UInt32) (ctx : ProbeCtx) (raw : Evt)

@[simp] theorem entryEvt_tid : (entryEvt m d ctx raw).tid = ctx.tid :=
  congrArg (·.1) (entryEvt_header m d ctx raw)

@[simp] theorem entryEvt_kind : (entryEvt m d ctx raw).kind = 0 :=
  congrArg (·.2.1) (entryEvt_header m d ctx raw)

@[simp] theorem entryEvt_ip : (entryEvt m d ctx raw).ip = ctx.ip :=
  congrArg (·.2.2.1) (entryEvt_header m d ctx raw)

theorem entryEvt_depth : (entryEvt m d ctx raw).depth =
    if (m.hasret.lookup (ctx.ip - m.base)).isSome then d.toInt32 else -1 :=
  congrArg (·.2.2.2.2.1) (entryEvt_header m d ctx raw)

@[simp] theorem entryEvt_ts : (entryEvt m d ctx raw).ts = ctx.ts :=
  congrArg (·.2.2.2.1) (entryEvt_header m d ctx raw)

@[simp] theorem entryEvt_caller : (entryEvt m d ctx raw).caller = ctx.ret :=
  congrArg (·.2.2.2.2.2.1) (entryEvt_header m d ctx raw)

@[simp] theorem entryEvt_a : (entryEvt m d ctx raw).a = ctx.parm :=
  congrArg (·.2.2.2.2.2.2) (entryEvt_header m d ctx raw)

/-- The stack id is asked for last. -/
theorem entryEvt_stackid : (entryEvt m d ctx raw).stackid =
    if m.wantStack ≠ 0 then ctx.stackid else -1 := by
  have hargs (off : UInt64) (e : Evt) : (captureArgs m ctx.mem off e).stackid = e.stackid := by
    unfold captureArgs
    split
    · split
      · exact capture_stackid _ _ _ _ _
      · rfl
    · rfl
  unfold entryEvt
  dsimp only
  split
  · rfl
  · rw [hargs]
    split <;> rfl

end EntryFields

/-! ### The counter shows in the depth of an entry record and nowhere else -/

def Evt.withDepth (e : Evt) (x : Int32) : Evt := { e with depth := x }

theorem capture_withDepth (mem : UserMemory) (e : Evt) (x : Int32) (p : UInt64) (k : UInt8)
    (ix : Fin nargs) :
    capture mem (e.withDepth x) p k ix = (capture mem e p k ix).withDepth x := by
  unfold capture
  split
  · rfl
  · split
    · rfl
    · split <;> rfl

theorem captureArgs_withDepth (m : ProbeMaps) (mem : UserMemory) (off : UInt64) (e : Evt)
    (x : Int32) :
    captureArgs m mem off (e.withDepth x) = (captureArgs m mem off e).withDepth x := by
  unfold captureArgs
  split
  · split
    · exact capture_withDepth _ _ _ _ _ _
    · rfl
  · rfl

theorem entryEvt_withDepth (m : ProbeMaps) (d d' : UInt32) (ctx : ProbeCtx) (raw : Evt)
    (x : Int32) : (entryEvt m d ctx raw).withDepth x = (entryEvt m d' ctx raw).withDepth x := by
  have hstack (e : Evt) :
      (if m.wantStack ≠ 0 then { e with stackid := ctx.stackid } else e).withDepth x =
        if m.wantStack ≠ 0 then { e.withDepth x with stackid := ctx.stackid }
        else e.withDepth x := by
    split <;> rfl
  have hdepth (b : Bool) (e : Evt) (y : Int32) :
      (if b then { e with depth := y } else e).withDepth x = e.withDepth x := by
    split <;> rfl
  unfold entryEvt
  dsimp only
  simp only [hstack, ← captureArgs_withDepth, hdepth]

end JniProbe
