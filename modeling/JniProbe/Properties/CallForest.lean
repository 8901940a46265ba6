import JniProbe.System.IdealTracer

/-!
The printed text of a thread. What a thread does is a forest of calls, each with
the calls made inside it; the lines printed for it are a recursive rendering of
that forest: the line of the entry, the lines of the inner calls one level deeper,
the line of the return, the lines of what follows.
-/

namespace JniProbe

open GoText GoFormat

/-- A covered run prints what the ideal tracer prints of the same calls, and
learns what it learns. -/
theorem covered_output_ideal (S : Session) (acts : List Action) (h : Covered S acts) :
    (Loader.after S (Machine.run S .all acts).ring).output = (IdealTracer.run S acts).output ∧
      (Tracker.after S (Machine.run S .all acts).ring).caches = (IdealTracer.run S acts).caches :=
  ⟨h.realizes.output, h.realizes.caches⟩

/-- Calls made one after the other: the first with its inner calls, the rest. -/
inductive CallForest where
  | nil
  | call (off : UInt64) (entry exit : Hit) (inner rest : CallForest)

namespace CallForest

/-- What a thread does. -/
def actions (tid : UInt32) : CallForest → List Action
  | nil => []
  | call off entry exit inner rest =>
    .enter tid off entry :: (inner.actions tid ++ .leave tid exit :: rest.actions tid)

/-- The line of an entry under `height` open calls, and the frame noted. -/
def opening (S : Session) (tid : UInt32) (height : Nat) (cs : Caches) (off : UInt64)
    (entry : Hit) : Option Bytes × Option Frame :=
  match S.slotAt off, entry.reserved with
  | some slot, some raw =>
    let depth := if S.retSet slot then height.toUInt32.toInt32 else -1
    let e := (entryEvt S.maps 0 (Machine.entryCtx S tid off entry) raw).withDepth depth
    (entryLine S entry.env cs e slot,
      if S.retSet slot then some (storedFrame S entry.env e slot cs) else none)
  | _, _ => (none, none)

/-- The line of a return, and what has been learnt after it. -/
def closing (S : Session) (tid : UInt32) (height : Nat) (cs : Caches) (fr : Option Frame)
    (exit : Hit) : Option Bytes × Caches :=
  match fr, exit.reserved with
  | some fr, some raw =>
    let e := returnEvt height.toUInt32 (Machine.returnCtx tid exit) raw
    let cs := learn exit.env.mr fr e.rc cs
    (returnLine S exit.env e fr cs, cs)
  | _, _ => (none, cs)

/-- The lines of a forest under `height` open calls. -/
def render (S : Session) (tid : UInt32) (height : Nat) (cs : Caches) :
    CallForest → List Bytes × Caches
  | nil => ([], cs)
  | call off entry exit inner rest =>
    let (first, fr) := opening S tid height cs off entry
    let (inside, cs) := inner.render S tid (if fr.isSome then height + 1 else height) cs
    let (last, cs) := closing S tid height cs fr exit
    let (more, cs) := rest.render S tid height cs
    (first.toList ++ inside ++ last.toList ++ more, cs)

end CallForest

/-! ### The ideal tracer renders -/

section Render

variable {S : Session} {s : IdealTracer} {tid : UInt32}

theorem printLine_eq (cfg : Config) (line : Option Bytes) (out : Output) :
    printLine cfg line out = line.toList.foldl (fun out line => emit cfg line out) out := by
  cases line <;> rfl

theorem IdealTracer.enter_eq (off : UInt64) (hit : Hit) : s.enter S tid off hit =
    ⟨Function.update s.calls tid
        ((CallForest.opening S tid (s.height tid) s.caches off hit).2 :: s.calls tid), s.caches,
      printLine S.cfg (CallForest.opening S tid (s.height tid) s.caches off hit).1 s.output⟩ := by
  unfold IdealTracer.enter CallForest.opening
  cases S.slotAt off with
  | none => rfl
  | some slot =>
      cases hit.reserved with
      | none => rfl
      | some raw => rfl

theorem IdealTracer.leave_eq (hit : Hit) {fr : Option Frame} {rest : List (Option Frame)}
    (hcalls : s.calls tid = fr :: rest) : s.leave S tid hit =
      ⟨Function.update s.calls tid rest,
        (CallForest.closing S tid rest.reduceOption.length s.caches fr hit).2,
        printLine S.cfg (CallForest.closing S tid rest.reduceOption.length s.caches fr hit).1
          s.output⟩ := by
  simp only [IdealTracer.leave, hcalls, CallForest.closing, IdealTracer.height,
    Function.update_self]
  cases fr with
  | none => rfl
  | some fr =>
      cases hit.reserved with
      | none => rfl
      | some raw => rfl

/-- The forest leaves the open calls as they were and prints its rendering. -/
theorem IdealTracer.run_forest (hw : watched S.cfg tid = true) (forest : CallForest)
    (s : IdealTracer) : Runs.run (step S) s (forest.actions tid) =
      ⟨s.calls, (forest.render S tid (s.height tid) s.caches).2,
        (forest.render S tid (s.height tid) s.caches).1.foldl
          (fun out line => emit S.cfg line out) s.output⟩ := by
  induction forest generalizing s with
  | nil => rfl
  | call off entry exit inner rest ihinner ihrest =>
      have henter : s.step S (.enter tid off entry) = s.enter S tid off entry := by
        simp [IdealTracer.step, Action.tid, hw]
      have hleave (s : IdealTracer) : s.step S (.leave tid exit) = s.leave S tid exit := by
        simp [IdealTracer.step, Action.tid, hw]
      obtain ⟨⟨first, fr⟩, hopening⟩ : ∃ o, CallForest.opening S tid (s.height tid) s.caches off
          entry = o := ⟨_, rfl⟩
      have hheight : (Function.update s.calls tid (fr :: s.calls tid) tid).reduceOption.length =
          if fr.isSome then s.height tid + 1 else s.height tid := by
        cases fr <;> simp [IdealTracer.height]
      have hback : Function.update (Function.update s.calls tid (fr :: s.calls tid)) tid
          (s.calls tid) = s.calls := by
        rw [Function.update_idem, Function.update_eq_self]
      rw [CallForest.actions, Runs.run_cons, henter, enter_eq, hopening, Runs.run_append, ihinner,
        Runs.run_cons, hleave, leave_eq exit (Function.update_self ..), ihrest]
      simp only [IdealTracer.height, CallForest.render] at hheight hopening ⊢
      simp only [hopening, hheight, hback, printLine_eq, List.foldl_append]

end Render

namespace Scenario

def findClassSession : Session := session (table [6])

/-- `FindClass` inside `FindClass`, and once more. -/
def nestedCalls : CallForest :=
  .call 0 plainHit plainHit (.call 0 plainHit plainHit .nil .nil)
    (.call 0 plainHit plainHit .nil .nil)

/-- A second thread that does something in between. -/
def besideNested : List Action := .enter 2 0 plainHit :: nestedCalls.actions 1

def onlyFirst : Session := ⟨{ config with tid := 1 }, filters, table [6], 0⟩

theorem covered_besideNested (S : Session) (hoffsets : S.retOffsets.length ≤ 8192) :
    Covered S besideNested := by
  have hmonitored : Monitored S besideNested := by
    apply Monitored.of_short hoffsets
    · decide
    · simp [besideNested, nestedCalls, CallForest.actions, Action.hit, plainHit, hit]
  exact hmonitored.covered

end Scenario

open Scenario

theorem covered_output_besideNested :
    (Loader.after findClassSession (Machine.run findClassSession .all besideNested).ring).output =
      (IdealTracer.run findClassSession besideNested).output :=
  (covered_output_ideal findClassSession besideNested
    (covered_besideNested _ (by decide +kernel))).1

example : (nestedCalls.render onlyFirst 1 0 newCaches).1 =
    [str "-> FindClass(NULL)", str "  -> FindClass(NULL)",
      str "  <- FindClass(NULL) = null  (0.000 ms)", str "<- FindClass(NULL) = null  (0.000 ms)",
      str "-> FindClass(NULL)", str "<- FindClass(NULL) = null  (0.000 ms)"] := by
  decide +kernel

end JniProbe
