import JniProbe.Lib.CLayout
import JniProbe.Loader.Trace

/-!
The bytes of an event between the probe and the loader. The record is declared
twice, as `struct evt_t` in C and as `reconEvt` in Go.
-/

namespace JniProbe

open GoText CLayout

/-- `struct evt_t`. -/
def evtFields : List CType := [
  .one .u32, -- pid
  .one .u32, -- tid
  .one .u32, -- kind
  .one .u32, -- pad
  .one .u64, -- ip
  .one .u64, -- rc
  .one .u64, -- ts
  .one .s32, -- depth
  .one .u32, -- pad2
  .one .u64, -- caller
  .many .u64 nargs, -- a
  .one .u32, -- ncap
  .one .u32, -- argkind
  .one .u32, -- res1
  .one .u32, -- res2
  .many .u64 ncapWords, -- cap
  .many .u64 ncapWords, -- cap2
  .one .u64, -- vgr
  .one .s64, -- vgoff
  .one .u64, -- vstk
  .one .s32, -- stackid
  .one .u32] -- pad3

/-- `type reconEvt struct`. -/
def reconFields : List CType := [
  .one .u32, -- Pid
  .one .u32, -- Tid
  .one .u32, -- Kind
  .one .u32, -- Pad
  .one .u64, -- Ip
  .one .u64, -- Rc
  .one .u64, -- Ts
  .one .s32, -- Depth
  .one .u32, -- Pad2
  .one .u64, -- Caller
  .many .u64 nargs, -- A
  .one .u32, -- Ncap
  .one .u32, -- Argkind
  .one .u32, -- Res1
  .one .u32, -- Res2
  .many .u64 ncapWords, -- Cap
  .many .u64 ncapWords, -- Cap2
  .one .u64, -- Vgr
  .one .s64, -- Vgoff
  .one .u64, -- Vstk
  .one .s32, -- Stackid
  .one .u32] -- Pad3

/-- The values of the C fields. -/
def Evt.toRecord (e : Evt) : Record evtFields :=
  (e.pid, e.tid, e.kind, e.pad, e.ip, e.rc, e.ts, e.depth, e.pad2, e.caller, e.a, e.ncap,
    e.argkind, e.res1, e.res2, e.cap, e.cap2, e.vgr, e.vgoff, e.vstk, e.stackid, e.pad3, ())

/-- The event whose Go fields have these values. -/
def Evt.ofRecord : Record reconFields → Evt
  | (pid, tid, kind, pad, ip, rc, ts, depth, pad2, caller, a, ncap, argkind, res1, res2, cap,
      cap2, vgr, vgoff, vstk, stackid, pad3, ()) =>
    { pid, tid, kind, pad, ip, rc, ts, depth, pad2, caller, a, ncap, argkind, res1, res2, cap,
      cap2, vgr, vgoff, vstk, stackid, pad3 }

/-- The memory of a submitted record; `pad` is what the compiler's own padding
would hold. -/
def rawSample (pad : Nat → UInt8) (e : Evt) : Bytes := layout pad evtFields e.toRecord

/-- `binary.Read(bytes.NewReader(rec.RawSample), binary.LittleEndian, &e)`. -/
def readEvt (raw : Bytes) : Option Evt := (binaryRead reconFields raw).map Evt.ofRecord

/-- One turn of the loop over the ring; a record that does not decode is skipped. -/
def Loader.receive (S : Session) (env : Env) (ld : Loader) (raw : Bytes) : Loader :=
  match readEvt raw with
  | none => ld
  | some e => ld.step S env e

end JniProbe
