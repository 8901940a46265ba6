import JniProbe.Properties.CallTree
import JniProbe.Properties.NoReturns
import Mathlib.Data.List.ReduceOption

/-!
The tool as it is meant to work. The ideal tracer sees the calls and returns of
the watched threads themselves: it keeps one stack of open calls for each thread,
takes the depth of a line from the height of that stack, and prints a return with
what it noted at the entry of the same call. There is no ring, no counter and no
map of frames. In a covered run the loader prints what the ideal tracer prints.
-/

namespace JniProbe

open GoText GoFormat HeightSlots

/-- The calls open on each thread, innermost first, with a frame for every
tracked one; what has been learnt; what has been printed. -/
structure IdealTracer where
  calls : UInt32 → List (Option Frame)
  caches : Caches
  output : Output

/-- The text of a call, and whether its callee is known. -/
def renderedCall (env : Env) (cs : Caches) (e : Evt) (slot : Nat) : Bytes × Bool :=
  if Session.callSet slot then describeCall e (slotName slot) cs env.mr
  else (genericLine e slot cs env.mr, true)

/-- Whether the filters let an entry through, but for its depth. -/
def showsEntry (S : Session) (env : Env) (cs : Caches) (e : Evt) (slot : Nat) : Bool :=
  let (text, known) := renderedCall env cs e slot
  let (cls, meth) := if Session.callSet slot then splitClassMethod text else ([], slotName slot)
  env.filters.matchSlot slot && (known || S.cfg.verbose) &&
    env.filters.matchLine cls meth text (env.moduleOf e.caller)

def entryLine (S : Session) (env : Env) (cs : Caches) (e : Evt) (slot : Nat) : Option Bytes :=
  if !tooDeep S.cfg e.depth && showsEntry S env cs e slot then
    some (indentStr e.depth ++ str "-> " ++ (renderedCall env cs e slot).1 ++ entryTag S env e slot)
  else none

/-- Printing a line, if there is one. -/
def printLine (cfg : Config) (line : Option Bytes) (out : Output) : Output :=
  match line with
  | none => out
  | some line => emit cfg line out

namespace IdealTracer

def start : IdealTracer := ⟨fun _ => [], newCaches, ⟨[], []⟩⟩

/-- How many tracked calls are open on a thread. -/
def height (s : IdealTracer) (tid : UInt32) : Nat := (s.calls tid).reduceOption.length

/-- The depth shown for a call: untracked functions have none. -/
def depthOf (S : Session) (s : IdealTracer) (tid : UInt32) (slot : Nat) : Int32 :=
  if S.retSet slot then s.height tid |>.toUInt32.toInt32 else -1

def entered (S : Session) (s : IdealTracer) (tid : UInt32) (off : UInt64) (slot : Nat) (hit : Hit)
    (raw : Evt) : Evt :=
  (entryEvt S.maps 0 (Machine.entryCtx S tid off hit) raw).withDepth (s.depthOf S tid slot)

def enter (S : Session) (s : IdealTracer) (tid : UInt32) (off : UInt64) (hit : Hit) :
    IdealTracer :=
  let opened (fr : Option Frame) := Function.update s.calls tid (fr :: s.calls tid)
  match S.slotAt off, hit.reserved with
  | some slot, some raw =>
    let e := s.entered S tid off slot hit raw
    let fr := if S.retSet slot then some (storedFrame S hit.env e slot s.caches) else none
    ⟨opened fr, s.caches, printLine S.cfg (entryLine S hit.env s.caches e slot) s.output⟩
  | _, _ => { s with calls := opened none }

def leave (S : Session) (s : IdealTracer) (tid : UInt32) (hit : Hit) : IdealTracer :=
  match s.calls tid with
  | [] => s
  | call :: rest =>
    let s : IdealTracer := { s with calls := Function.update s.calls tid rest }
    match call, hit.reserved with
    | some fr, some raw =>
      let e := returnEvt (s.height tid).toUInt32 (Machine.returnCtx tid hit) raw
      let caches := learn hit.env.mr fr e.rc s.caches
      { s with caches, output := printLine S.cfg (returnLine S hit.env e fr caches) s.output }
    | _, _ => s

/-- Only what the watched threads do is looked at. -/
def step (S : Session) (s : IdealTracer) (a : Action) : IdealTracer :=
  if !watched S.cfg a.tid then s
  else
    match a with
    | .enter tid off hit => s.enter S tid off hit
    | .leave tid hit => s.leave S tid hit

def run (S : Session) (acts : List Action) : IdealTracer := Runs.run (step S) start acts

theorem run_concat (S : Session) (acts : List Action) (a : Action) :
    run S (acts ++ [a]) = (run S acts).step S a :=
  Runs.run_concat (step S) start acts a

end IdealTracer

/-! ### What the loader prints for one record -/

theorem handleEntry_line (S : Session) (env : Env) (t : Tracker) (e : Evt) {slot : Nat}
    (hslot : S.slotAt (e.ip - S.base) = some slot) :
    (handleEntry S env t e).2 = entryLine S env t.caches e slot := by
  have hdecides : (handleEntry S env t e).2.isSome =
      (!tooDeep S.cfg e.depth && showsEntry S env t.caches e slot) := by
    rw [entry_emits S env t e hslot]
    unfold acceptsEntry showsEntry entryText renderedCall acceptsText
    cases Session.callSet slot <;> simp [Bool.and_assoc]
  have htext : (renderedCall env t.caches e slot).1 = entryText env t e slot := by
    unfold renderedCall entryText
    split <;> rfl
  unfold entryLine
  rw [← hdecides, htext]
  cases hline : (handleEntry S env t e).2 with
  | none => rfl
  | some line =>
      rw [entry_line S env t e hslot hline]
      rfl

theorem Loader.step_line (S : Session) (env : Env) (ld : Loader) (e : Evt) :
    (ld.step S env e).output = printLine S.cfg (handleEvent S env ld.tracker e).2 ld.output := by
  unfold Loader.step printLine
  cases handleEvent S env ld.tracker e with
  | mk t line => cases line <;> rfl

/-- The output after one more record. -/
theorem Loader.output_concat (S : Session) (recs : List Record) (r : Record) :
    (Loader.after S (recs ++ [r])).output =
      printLine S.cfg (handleEvent S r.env (Tracker.after S recs) r.evt).2
        (Loader.after S recs).output := by
  rw [Loader.after_concat, Loader.step_line, Loader.after_tracker]

/-! ### The loader realizes the ideal tracer -/

/-- The loader behind the ring against the ideal tracer. -/
structure Realizes (S : Session) (m : Machine) (s : IdealTracer) : Prop where
  caches : (Tracker.after S m.ring).caches = s.caches
  output : (Loader.after S m.ring).output = s.output
  calls : ∀ t, watched S.cfg t = true →
    (s.calls t).map Option.isSome = (m.callStacks t).map (fun c => S.tracked c.off)
  frames : ∀ t, watched S.cfg t = true → (s.calls t).reduceOption =
    ((StackTracer.after S m.ring).pending t).map (Pending.frame S)

theorem realizes_start (S : Session) : Realizes S Machine.start IdealTracer.start where
  caches := rfl
  output := rfl
  calls _ _ := rfl
  frames _ _ := rfl

section Step

variable {S : Session} {m : Machine} {s : IdealTracer} {tid : UInt32} {off : UInt64} {hit : Hit}

/-- The height of the ideal stack is the number of open tracked calls. -/
theorem Realizes.height_eq (h : Realizes S m s)
    (hfollows : Follows S m (StackTracer.after S m.ring)) (hw : watched S.cfg tid = true) :
    s.height tid = (m.openTracked S tid).length := by
  rw [IdealTracer.height, h.frames tid hw, ← hfollows.calls tid hw]
  simp

/-- A step without a record, seen by both. -/
theorem Realizes.silent {m' : Machine} {s' : IdealTracer} (h : Realizes S m s)
    (hring : m'.ring = m.ring) (hcaches : s'.caches = s.caches) (houtput : s'.output = s.output)
    (hcalls : ∀ t, watched S.cfg t = true →
      (s'.calls t).map Option.isSome = (m'.callStacks t).map (fun c => S.tracked c.off))
    (hframes : ∀ t, watched S.cfg t = true → (s'.calls t).reduceOption =
      (s.calls t).reduceOption) : Realizes S m' s' where
  caches := by rw [hring, hcaches]; exact h.caches
  output := by rw [hring, houtput]; exact h.output
  calls := hcalls
  frames t ht := by rw [hring, hframes t ht]; exact h.frames t ht

/-- Opening a call on both sides. -/
theorem calls_opened {calls : UInt32 → List (Option Frame)} {opened : UInt32 → List OpenCall}
    (h : ∀ t, watched S.cfg t = true →
      (calls t).map Option.isSome = (opened t).map (fun c => S.tracked c.off))
    {fr : Option Frame} {call : OpenCall} (hfr : fr.isSome = S.tracked call.off) (t : UInt32)
    (ht : watched S.cfg t = true) :
    (Function.update calls tid (fr :: calls tid) t).map Option.isSome =
      (Function.update opened tid (call :: opened tid) t).map (fun c => S.tracked c.off) := by
  by_cases heq : t = tid
  · subst heq
    rw [Function.update_self, Function.update_self, List.map_cons, List.map_cons, h t ht, hfr]
  · rw [Function.update_of_ne heq, Function.update_of_ne heq, h t ht]

/-- Closing the innermost call on both sides. -/
theorem calls_closed {calls : UInt32 → List (Option Frame)} {opened : UInt32 → List OpenCall}
    (h : ∀ t, watched S.cfg t = true →
      (calls t).map Option.isSome = (opened t).map (fun c => S.tracked c.off))
    {call : OpenCall} {rest : List OpenCall} (hopened : opened tid = call :: rest)
    {fr : Option Frame} {below : List (Option Frame)} (hcalls : calls tid = fr :: below)
    (t : UInt32) (ht : watched S.cfg t = true) :
    (Function.update calls tid below t).map Option.isSome =
      (Function.update opened tid rest t).map (fun c => S.tracked c.off) := by
  by_cases heq : t = tid
  · subst heq
    have htop := h t ht
    rw [hopened, hcalls, List.map_cons, List.map_cons] at htop
    rw [Function.update_self, Function.update_self]
    exact (List.cons.inj htop).2
  · rw [Function.update_of_ne heq, Function.update_of_ne heq, h t ht]

theorem reduceOption_update_none (calls : UInt32 → List (Option Frame)) (t : UInt32) :
    (Function.update calls tid (none :: calls tid) t).reduceOption = (calls t).reduceOption := by
  by_cases heq : t = tid
  · subst heq
    rw [Function.update_self, List.reduceOption_cons_of_none]
  · rw [Function.update_of_ne heq]

/-- The event of a covered entry, as the ideal tracer has it. -/
theorem entered_eq {raw : Evt} {slot : Nat} (hslot : S.slotAt off = some slot)
    (hheight : S.tracked off = true → S.hasret off = true ∧
      (DepthMap.count m.depth tid).toNat = s.height tid) :
    s.entered S tid off slot hit raw =
      entryEvt S.maps (DepthMap.count m.depth tid) (Machine.entryCtx S tid off hit) raw := by
  have hret : S.tracked off = S.retSet slot := S.tracked_of_slot hslot
  have hdepth : s.depthOf S tid slot = (entryEvt S.maps (DepthMap.count m.depth tid)
      (Machine.entryCtx S tid off hit) raw).depth := by
    rw [Machine.entryEvt_depth_at, IdealTracer.depthOf, ← hret]
    cases htracked : S.tracked off with
    | false => simp [S.hasret_of_untracked htracked]
    | true =>
        obtain ⟨hhas, hcount⟩ := hheight htracked
        simp [hhas, ← hcount]
  rw [IdealTracer.entered, hdepth]
  exact entryEvt_withDepth S.maps 0 (DepthMap.count m.depth tid) _ raw _

/-- The entry record of a watched thread. -/
theorem Realizes.enter_recorded (h : Realizes S m s)
    (hfollows : Follows S m (StackTracer.after S m.ring)) (hw : watched S.cfg tid = true)
    {raw : Evt} {slot : Nat} (hslot : S.slotAt off = some slot) (hraw : hit.reserved = some raw)
    (hheight : S.tracked off = true → S.hasret off = true ∧
      (DepthMap.count m.depth tid).toNat = s.height tid) :
    Realizes S (Machine.enter S .all m tid off hit) (s.step S (.enter tid off hit)) := by
  have hlive : S.entryLive .all off = true := by
    rw [S.entryLive_iff_slot, hslot]
    rfl
  have hret : S.tracked off = S.retSet slot := S.tracked_of_slot hslot
  have hstacks : (Machine.enter S .all m tid off hit).callStacks =
      Function.update m.callStacks tid
        (⟨m.next, off, Machine.counts S .all m tid off hit⟩ :: m.callStacks tid) :=
    Machine.stacks_enter
  set r := Machine.enterRecord S m tid off hit raw with hr
  have hring : (Machine.enter S .all m tid off hit).ring = m.ring ++ [r] := by
    rw [Machine.enter_recorded raw hlive hraw]
  have hrtid : watched S.cfg r.evt.tid = true := by simpa [hr] using hw
  have hrkind : r.evt.kind = 0 := by simp [hr]
  have hrslot : S.slotAt (r.evt.ip - S.base) = some slot := by
    have hip : r.evt.ip - S.base = off := by simpa [hr] using Machine.entryCtx_offset
    rw [hip, hslot]
  have hevt : s.entered S tid off slot hit raw = r.evt := entered_eq hslot hheight
  have hstep : s.step S (.enter tid off hit) =
      ⟨Function.update s.calls tid ((if S.retSet slot then
        some (storedFrame S hit.env r.evt slot s.caches) else none) :: s.calls tid), s.caches,
        printLine S.cfg (entryLine S hit.env s.caches r.evt slot) s.output⟩ := by
    have hgo : (!watched S.cfg (Action.enter tid off hit).tid) = false := by
      simpa [Action.tid] using hw
    simp only [IdealTracer.step, hgo, Bool.false_eq_true, if_false, IdealTracer.enter, hslot, hraw,
      hevt]
  rw [hstep]
  refine ⟨?_, ?_, ?_, ?_⟩
  · rw [hring, Tracker.after_concat, handleEvent_entry _ _ _ hrtid hrkind, handleEntry_caches]
    exact h.caches
  · rw [hring, Loader.output_concat, handleEvent_entry _ _ _ hrtid hrkind,
      handleEntry_line _ _ _ _ hrslot, h.caches, h.output]
  · rw [hstacks]
    apply calls_opened h.calls
    rw [hret]
    split <;> simp [*]
  · intro t ht
    rw [hring, StackTracer.after_concat, StackTracer.step_entry r hrtid hrkind, StackTracer.push,
      hrslot]
    have hsame := h.frames t ht
    by_cases htracked : S.retSet slot = true
    · simp only [htracked, if_true]
      have htid : r.evt.tid = tid := by simp [hr]
      rw [htid]
      by_cases heq : t = tid
      · subst heq
        rw [Function.update_self, Function.update_self, List.reduceOption_cons_of_some, hsame,
          List.map_cons, Pending.frame, ← hfollows.caches, h.caches]
      · rw [Function.update_of_ne heq, Function.update_of_ne heq, hsame]
    · simp only [htracked, Bool.false_eq_true, if_false]
      rw [reduceOption_update_none, hsame]

/-- A call of a function that no probe is attached to. -/
theorem Realizes.enter_unknown (h : Realizes S m s) (hw : watched S.cfg tid = true)
    (hslot : S.slotAt off = none) :
    Realizes S (Machine.enter S .all m tid off hit) (s.step S (.enter tid off hit)) := by
  have hlive : S.entryLive .all off = false := by
    rw [S.entryLive_iff_slot, hslot]
    rfl
  have hsilent : Machine.enter S .all m tid off hit = _ := Machine.enter_silent (by simp [hlive])
  have hstep : s.step S (.enter tid off hit) =
      { s with calls := Function.update s.calls tid (none :: s.calls tid) } := by
    have hgo : (!watched S.cfg (Action.enter tid off hit).tid) = false := by
      simpa [Action.tid] using hw
    simp only [IdealTracer.step, hgo, Bool.false_eq_true, if_false, IdealTracer.enter, hslot]
  rw [hsilent, hstep]
  refine h.silent rfl rfl rfl ?_ ?_
  · apply calls_opened h.calls
    rw [S.tracked_of_none hslot]
    rfl
  · intro t _
    exact reduceOption_update_none s.calls t

/-- A covered entry. -/
theorem Realizes.enter (h : Realizes S m s) (hfollows : Follows S m (StackTracer.after S m.ring))
    (hcounted : Counted S m) (hw : watched S.cfg tid = true)
    (hres : hit.reserved.isSome = true) (hcovers : Machine.Covers S m (.enter tid off hit)) :
    Realizes S (Machine.enter S .all m tid off hit) (s.step S (.enter tid off hit)) := by
  obtain ⟨raw, hraw⟩ := Option.isSome_iff_exists.mp hres
  cases hslot : S.slotAt off with
  | none => exact h.enter_unknown hw hslot
  | some slot =>
      apply h.enter_recorded hfollows hw hslot hraw
      intro htracked
      obtain ⟨hhas, -, hkey⟩ := hcovers htracked
      rw [h.height_eq hfollows hw]
      exact ⟨hhas, hcounted.at_entry hkey⟩

/-- The return of a tracked call of a watched thread. -/
theorem Realizes.leave_tracked (h : Realizes S m s)
    (hfollows : Follows S m (StackTracer.after S m.ring)) (hcounted : Counted S m)
    (hw : watched S.cfg tid = true) {raw : Evt} (hraw : hit.reserved = some raw)
    {call : OpenCall} {rest : List OpenCall} (hstack : m.callStacks tid = call :: rest)
    (htracked : S.tracked call.off = true) :
    Realizes S (Machine.leave S .all m tid hit) (s.step S (.leave tid hit)) := by
  obtain ⟨p, outer, hpending, -, hdepth, hnd, hlt, hfound⟩ :=
    hfollows.return_found hit hw hstack htracked hcounted
  have hlive : S.returnLive .all call.off = true := by rw [S.returnLive_all, htracked]
  set nd := Machine.dropOne (DepthMap.count m.depth tid) with hnddef
  set r := Machine.leaveRecord m tid hit call.id raw with hr
  have hring : (Machine.leave S .all m tid hit).ring = m.ring ++ [r] := by
    rw [Machine.leave_recorded raw hstack hlive hraw]
  have hkey : r.evt.key = (tid.toInt32, p.entry.evt.depth) := by
    rw [hdepth]
    rfl
  have hnonneg : 0 ≤ r.evt.depth := (nonneg_toInt32_iff nd).mpr (by omega)
  have hreturn := handleReturn_found S r.env (Tracker.after S m.ring) r.evt hnonneg
    (by rw [hkey]; exact hfound)
  -- the frame on top of the ideal stack is that of the pending call
  obtain ⟨below, hcalls, hbelow⟩ : ∃ below, s.calls tid = some (p.frame S) :: below ∧
      below.reduceOption = outer.map (Pending.frame S) := by
    have hmarks := h.calls tid hw
    have hframes := h.frames tid hw
    rw [hstack, List.map_cons, htracked] at hmarks
    rw [hpending, List.map_cons] at hframes
    cases hcalls : s.calls tid with
    | nil =>
        rw [hcalls] at hmarks
        cases hmarks
    | cons fr below =>
        rw [hcalls, List.map_cons] at hmarks
        obtain ⟨fr, rfl⟩ := Option.isSome_iff_exists.mp (List.cons.inj hmarks).1
        rw [hcalls, List.reduceOption_cons_of_some] at hframes
        obtain ⟨rfl, hrest⟩ := List.cons.inj hframes
        exact ⟨below, rfl, hrest⟩
  have hheight : below.reduceOption.length.toUInt32 = nd := by
    rw [hbelow, List.length_map, ← hnd]
    simp
  have hstep : s.step S (.leave tid hit) =
      ⟨Function.update s.calls tid below, learn hit.env.mr (p.frame S) r.evt.rc s.caches,
        printLine S.cfg (returnLine S hit.env r.evt (p.frame S)
          (learn hit.env.mr (p.frame S) r.evt.rc s.caches)) s.output⟩ := by
    have hgo : (!watched S.cfg (Action.leave tid hit).tid) = false := by
      simpa [Action.tid] using hw
    simp only [IdealTracer.step, hgo, Bool.false_eq_true, if_false, IdealTracer.leave, hcalls, hraw,
      IdealTracer.height, Function.update_self, hheight]
    rfl
  rw [hstep]
  refine ⟨?_, ?_, ?_, ?_⟩
  · rw [hring, Tracker.after_concat, handleEvent_return _ _ _ hw rfl, hreturn, h.caches]
  · rw [hring, Loader.output_concat, handleEvent_return _ _ _ hw rfl, hreturn, h.caches, h.output]
  · rw [Machine.stacks_leave hstack]
    exact calls_closed h.calls hstack hcalls
  · intro t ht
    have hpop : (StackTracer.after S m.ring).step S r =
        ⟨Function.update (StackTracer.after S m.ring).pending tid outer,
          learn r.env.mr (p.frame S) r.evt.rc (StackTracer.after S m.ring).caches⟩ := by
      rw [StackTracer.step_return r hw rfl]
      simp only [StackTracer.pop]
      have htop : (StackTracer.after S m.ring).pending r.evt.tid = p :: outer := hpending
      rw [htop]
      rfl
    rw [hring, StackTracer.after_concat, hpop]
    dsimp only
    by_cases heq : t = tid
    · subst heq
      rw [Function.update_self, Function.update_self, hbelow]
    · rw [Function.update_of_ne heq, Function.update_of_ne heq, h.frames t ht]

/-- A return to which no probe answers. -/
theorem Realizes.leave_untracked (h : Realizes S m s) (hw : watched S.cfg tid = true)
    {call : OpenCall} {rest : List OpenCall} (hstack : m.callStacks tid = call :: rest)
    (htracked : S.tracked call.off = false) :
    Realizes S (Machine.leave S .all m tid hit) (s.step S (.leave tid hit)) := by
  have hsilent : Machine.leave S .all m tid hit = _ :=
    Machine.leave_silent hstack (by simp [S.returnLive_all, htracked])
  obtain ⟨below, hcalls⟩ : ∃ below, s.calls tid = none :: below := by
    have hmarks := h.calls tid hw
    rw [hstack, List.map_cons, htracked] at hmarks
    cases hcalls : s.calls tid with
    | nil =>
        rw [hcalls] at hmarks
        cases hmarks
    | cons fr below =>
        rw [hcalls, List.map_cons] at hmarks
        have hfr : fr = none := by simpa using (List.cons.inj hmarks).1
        exact ⟨below, by rw [hfr]⟩
  have hstep : s.step S (.leave tid hit) =
      { s with calls := Function.update s.calls tid below } := by
    have hgo : (!watched S.cfg (Action.leave tid hit).tid) = false := by
      simpa [Action.tid] using hw
    simp only [IdealTracer.step, hgo, Bool.false_eq_true, if_false, IdealTracer.leave, hcalls]
  rw [hsilent, hstep]
  refine h.silent rfl rfl rfl ?_ ?_
  · exact calls_closed h.calls hstack hcalls
  · intro t _
    dsimp only
    by_cases heq : t = tid
    · subst heq
      rw [Function.update_self, hcalls, List.reduceOption_cons_of_none]
    · rw [Function.update_of_ne heq]

theorem Realizes.leave (h : Realizes S m s) (hfollows : Follows S m (StackTracer.after S m.ring))
    (hcounted : Counted S m) (hw : watched S.cfg tid = true)
    (hres : hit.reserved.isSome = true) :
    Realizes S (Machine.leave S .all m tid hit) (s.step S (.leave tid hit)) := by
  obtain ⟨raw, hraw⟩ := Option.isSome_iff_exists.mp hres
  cases hstack : m.callStacks tid with
  | nil =>
      have hcalls : s.calls tid = [] := by
        have hmarks := h.calls tid hw
        rw [hstack, List.map_nil, List.map_eq_nil_iff] at hmarks
        exact hmarks
      have hstep : s.step S (.leave tid hit) = s := by
        unfold IdealTracer.step
        split
        · rfl
        · simp only [IdealTracer.leave, hcalls]
      rw [Machine.leave_idle hstack, hstep]
      exact h
  | cons call rest =>
      cases htracked : S.tracked call.off with
      | true => exact h.leave_tracked hfollows hcounted hw hraw hstack htracked
      | false => exact h.leave_untracked hw hstack htracked

/-- What a thread does that is not watched shows nowhere. -/
theorem Realizes.unwatched (h : Realizes S m s) {a : Action} (hw : watched S.cfg a.tid = false) :
    Realizes S (Machine.step S .all m a) (s.step S a) := by
  have hstep : s.step S a = s := by simp [IdealTracer.step, hw]
  have hne {t : UInt32} (ht : watched S.cfg t = true) : t ≠ a.tid := by
    rintro rfl
    rw [hw] at ht
    cases ht
  have hstacks (t : UInt32) (ht : watched S.cfg t = true) :
      (Machine.step S .all m a).callStacks t = m.callStacks t := by
    cases a with
    | enter tid off hit =>
        simp only [Machine.step, Machine.stacks_enter]
        exact Function.update_of_ne (hne ht) _ _
    | leave tid hit =>
        simp only [Machine.step]
        cases hstack : m.callStacks tid with
        | nil => rw [Machine.leave_idle hstack]
        | cons call rest =>
            rw [Machine.stacks_leave hstack]
            exact Function.update_of_ne (hne ht) _ _
  have hring : (Machine.step S .all m a).ring = m.ring ∨
      ∃ r, (Machine.step S .all m a).ring = m.ring ++ [r] ∧ r.evt.tid = a.tid := by
    cases a with
    | enter tid off hit =>
        rcases Machine.enter_cases S .all m tid off hit with ⟨hsame, -⟩ | ⟨raw, -, -, hring, -⟩
        · exact Or.inl hsame
        · exact Or.inr ⟨_, hring, by simp [Action.tid]⟩
    | leave tid hit =>
        rcases Machine.leave_cases S .all m tid hit with
          ⟨hsame, -⟩ | ⟨call, rest, raw, -, -, -, hring, -⟩
        · exact Or.inl hsame
        · exact Or.inr ⟨_, hring, rfl⟩
  rw [hstep]
  rcases hring with hsame | ⟨r, hring, htid⟩
  · apply h.silent hsame rfl rfl
    · intro t ht
      rw [hstacks t ht, h.calls t ht]
    · exact fun _ _ => rfl
  · have hrw : watched S.cfg r.evt.tid = false := by rw [htid, hw]
    refine ⟨?_, ?_, ?_, ?_⟩
    · rw [hring, Tracker.after_concat, handleEvent_unwatched _ _ _ hrw]
      exact h.caches
    · rw [hring, Loader.output_concat, handleEvent_unwatched _ _ _ hrw]
      exact h.output
    · intro t ht
      rw [hstacks t ht, h.calls t ht]
    · intro t ht
      rw [hring, StackTracer.after_concat, StackTracer.step_unwatched r hrw]
      exact h.frames t ht

end Step

/-! ### Whole runs -/

/-- In a covered run the loader realizes the ideal tracer. -/
theorem Covered.realizes {S : Session} {acts : List Action} (h : Covered S acts) :
    Realizes S (Machine.run S .all acts) (IdealTracer.run S acts) := by
  induction acts using List.reverseRecOn with
  | nil => exact realizes_start S
  | append_singleton acts a ih =>
      have hbefore := h.of_prefix (List.prefix_append _ _)
      have hres := h.reserved a (by simp)
      have hcovers := ((Runs.along_concat _ _ _ _ _).mp h.along).2
      rw [Machine.run_concat, IdealTracer.run_concat]
      cases hw : watched S.cfg a.tid with
      | false => exact (ih hbefore).unwatched hw
      | true =>
          cases a with
          | enter tid off hit =>
              exact (ih hbefore).enter hbefore.follows hbefore.counted hw hres hcovers
          | leave tid hit => exact (ih hbefore).leave hbefore.follows hbefore.counted hw hres

end JniProbe
