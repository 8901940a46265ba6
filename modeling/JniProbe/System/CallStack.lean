import JniProbe.System.Pairing

/-!
The tracer as it is meant to work: one stack of pending tracked calls for each
thread. A record of an entry pushes, a record of a return pops, and what the
return teaches comes from the frame popped. Nothing here looks at a depth or
at a frames map; a monitored run of the real tracer is shown to follow it.
-/

namespace JniProbe

open GoText HeightSlots

/-- A tracked call that has been entered: its entry record, its slot and the
caches when the loader processed the record. -/
structure Pending where
  entry : Record
  slot : Nat
  caches : Caches

/-- The text that the loop leaves in a stored frame. -/
def storedCall (S : Session) (env : Env) (e : Evt) (slot : Nat) (cs : Caches) : Bytes :=
  if Session.callSet slot then
    if env.filters.matchSlot slot && !tooDeep S.cfg e.depth then
      (describeCall e (slotName slot) cs env.mr).1
    else []
  else genericLine e slot cs env.mr

def storedFrame (S : Session) (env : Env) (e : Evt) (slot : Nat) (cs : Caches) : Frame :=
  { newFrame env e slot cs with call := storedCall S env e slot cs }

def Pending.frame (S : Session) (p : Pending) : Frame :=
  storedFrame S p.entry.env p.entry.evt p.slot p.caches

structure StackTracer where
  pending : UInt32 → List Pending
  caches : Caches

namespace StackTracer

def start : StackTracer := ⟨fun _ => [], newCaches⟩

def pop (S : Session) (s : StackTracer) (r : Record) : StackTracer :=
  match s.pending r.evt.tid with
  | [] => s
  | p :: rest =>
    ⟨Function.update s.pending r.evt.tid rest, learn r.env.mr (p.frame S) r.evt.rc s.caches⟩

def push (S : Session) (s : StackTracer) (r : Record) : StackTracer :=
  match S.slotAt (r.evt.ip - S.base) with
  | some slot =>
    if S.retSet slot then
      ⟨Function.update s.pending r.evt.tid (⟨r, slot, s.caches⟩ :: s.pending r.evt.tid), s.caches⟩
    else s
  | none => s

def step (S : Session) (s : StackTracer) (r : Record) : StackTracer :=
  if !watched S.cfg r.evt.tid then s
  else if r.evt.kind = 1 then s.pop S r
  else s.push S r

def after (S : Session) (recs : List Record) : StackTracer :=
  Runs.run (step S) start recs

theorem after_concat (S : Session) (recs : List Record) (r : Record) :
    after S (recs ++ [r]) = step S (after S recs) r :=
  Runs.run_concat (step S) start recs r

end StackTracer

/-! ### What the loader stores -/

section Stored

variable (S : Session) (env : Env) (t : Tracker) (e : Evt)

theorem setCall_update (frames : Key → Option Frame) (key : Key) (fr : Frame) (call : Bytes) :
    setCall (Function.update frames key (some fr)) key call =
      Function.update frames key (some { fr with call := call }) := by
  simp [setCall]

theorem setCall_of_none (frames : Key → Option Frame) (key : Key) (call : Bytes)
    (h : frames key = none) : setCall frames key call = frames := by
  simp [setCall, h]

/-- An entry of a tracked slot stores one frame under its key. -/
theorem handleEntry_frames_stored {slot : Nat} (hslot : S.slotAt (e.ip - S.base) = some slot)
    (hret : S.retSet slot = true) (hdepth : 0 ≤ e.depth) :
    (handleEntry S env t e).1.frames =
      Function.update t.frames e.key (some (storedFrame S env e slot t.caches)) := by
  have hgeneric (h : Session.callSet slot = false) :
      storedFrame S env e slot t.caches = newFrame env e slot t.caches := by
    simp [storedFrame, storedCall, newFrame, h]
  have hskipped (h : (env.filters.matchSlot slot && !tooDeep S.cfg e.depth) = false) :
      storedFrame S env e slot t.caches = newFrame env e slot t.caches := by
    simp [storedFrame, storedCall, newFrame, h]
  simp only [handleEntry, hslot, hret, hdepth, and_self, if_true]
  by_cases hmatch : env.filters.matchSlot slot = true
  · by_cases hdeep : tooDeep S.cfg e.depth = true
    · simp only [hmatch, hdeep, Bool.not_true, Bool.false_eq_true, if_false, if_true]
      rw [hskipped (by simp [hdeep])]
      rfl
    · simp only [hmatch, hdeep, Bool.not_true, Bool.false_eq_true, if_false]
      cases hcall : isCallMethod (slotName slot) with
      | none =>
          rw [hgeneric (by simp [Session.callSet, hcall])]
          dsimp only
          split <;> rfl
      | some ix =>
          have hset : Session.callSet slot = true := by simp [Session.callSet, hcall]
          have hframe : storedFrame S env e slot t.caches =
              { newFrame env e slot t.caches with
                call := (describeCall e (slotName slot) t.caches env.mr).1 } := by
            simp [storedFrame, storedCall, hset, hmatch, hdeep]
          rw [hframe]
          dsimp only
          split <;> exact setCall_update _ _ _ _
  · simp only [hmatch, Bool.not_false, if_true]
    rw [hskipped (by simp [hmatch])]
    rfl

/-- Any other entry leaves the frames alone when none is stored under its key. -/
theorem handleEntry_frames_other
    (hother : ∀ slot, S.slotAt (e.ip - S.base) = some slot → ¬ (S.retSet slot = true ∧ 0 ≤ e.depth))
    (hnone : t.frames e.key = none) : (handleEntry S env t e).1.frames = t.frames := by
  unfold handleEntry
  cases hslot : S.slotAt (e.ip - S.base) with
  | none => rfl
  | some slot =>
      simp only [hother slot hslot, if_false]
      split
      · rfl
      · split
        · rfl
        · split
          · split <;> exact setCall_of_none _ _ _ hnone
          · split <;> rfl

/-- A return record that finds no frame is ignored. -/
theorem handleReturn_missing (hfr : t.frames e.key = none) :
    handleReturn S env t e = (t, none) := by
  have hkey : t.frames (e.tid.toInt32, e.depth) = none := hfr
  simp only [handleReturn, hkey, ite_self]

/-- A return record that finds a frame consumes it and learns from it. -/
theorem handleReturn_found {fr : Frame} (hdepth : 0 ≤ e.depth) (hfr : t.frames e.key = some fr) :
    handleReturn S env t e =
      (⟨Function.update t.frames e.key none, learn env.mr fr e.rc t.caches⟩,
        returnLine S env e fr (learn env.mr fr e.rc t.caches)) := by
  have hpos : ¬ e.depth < 0 := by
    simpa using hdepth
  have hkey : t.frames (e.tid.toInt32, e.depth) = some fr := hfr
  simp only [handleReturn, hpos, if_false, hkey]
  rfl

end Stored

end JniProbe
