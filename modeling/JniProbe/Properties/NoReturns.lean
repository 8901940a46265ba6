import JniProbe.Properties.Lines
import JniProbe.System.Delay

/-!
What `--no-returns` leaves of the output. Without return probes only the
functions that feed the name caches have stored frames, but the returns of these
are printed like any others.
-/

namespace JniProbe

open GoText GoFormat

/-! ### The output of a stream -/

def Loader.start : Loader := ⟨Tracker.start, ⟨[], []⟩⟩

/-- The loader after it has processed these records. -/
def Loader.after (S : Session) (recs : List Record) : Loader :=
  recs.foldl (fun ld r => ld.step S r.env r.evt) Loader.start

theorem Loader.after_concat (S : Session) (recs : List Record) (r : Record) :
    Loader.after S (recs ++ [r]) = (Loader.after S recs).step S r.env r.evt := by
  simp [Loader.after]

theorem Loader.step_tracker (S : Session) (env : Env) (ld : Loader) (e : Evt) :
    (ld.step S env e).tracker = (handleEvent S env ld.tracker e).1 := by
  unfold Loader.step
  dsimp only
  split
  · rfl
  · rfl

theorem Loader.after_tracker (S : Session) (recs : List Record) :
    (Loader.after S recs).tracker = Tracker.after S recs := by
  induction recs using List.reverseRecOn with
  | nil => rfl
  | append_singleton recs r ih =>
      rw [Loader.after_concat, Loader.step_tracker, ih, Tracker.after_concat]

theorem bump_ne (counts : List (Bytes × Nat)) (line : Bytes) : bump counts line ≠ counts := by
  induction counts with
  | nil => exact List.cons_ne_nil _ _
  | cons p rest ih =>
      obtain ⟨k, v⟩ := p
      unfold bump
      split
      · intro h
        have hcount : v + 1 = v := (Prod.mk.inj (List.cons.inj h).1).2
        exact absurd hcount (Nat.succ_ne_self v)
      · intro h
        exact ih (List.cons.inj h).2

theorem emit_ne (cfg : Config) (line : Bytes) (out : Output) : emit cfg line out ≠ out := by
  have happend (p : Printed) : out.stdout ++ [p] ≠ out.stdout := by
    intro h
    have hlen := congrArg List.length h
    rw [List.length_append, List.length_singleton] at hlen
    exact absurd hlen (Nat.succ_ne_self _)
  unfold emit
  split
  · intro h
    exact bump_ne out.counts line (congrArg Output.counts h)
  · split
    · intro h
      exact happend (.json line) (congrArg Output.stdout h)
    · intro h
      exact happend (.plain line) (congrArg Output.stdout h)

/-- A record leaves the output as it is exactly if it emits no line. -/
theorem output_unchanged_iff {S : Session} {recs : List Record} {n : Nat} {r : Record}
    (hr : recs[n]? = some r) :
    (Loader.after S (recs.take (n + 1))).output = (Loader.after S (recs.take n)).output ↔
      emitsAt S recs n = false := by
  rw [take_concat hr, Loader.after_concat]
  unfold Loader.step emitsAt
  rw [hr, Loader.after_tracker]
  dsimp only
  cases (handleEvent S r.env (Tracker.after S (recs.take n)) r.evt).2 with
  | none => exact iff_of_true rfl rfl
  | some line =>
      apply iff_of_false (emit_ne S.cfg line _)
      intro h
      cases h

/-! ### The frames of a session without return probes -/

/-- Frames are stored for tracked functions only. -/
theorem frame_retSet {S : Session} {recs : List Record} {k : Key} {fr : Frame}
    (hfr : (Tracker.after S recs).frames k = some fr) : S.retSet fr.slot = true := by
  induction recs using List.reverseRecOn generalizing k fr with
  | nil => cases hfr
  | append_singleton recs r ih =>
      rw [Tracker.after_concat] at hfr
      rcases handleEvent_frames S r.env _ r.evt hfr with
        ⟨-, -, slot, hret, hbare⟩ | ⟨-, fr', hfr', hbare⟩
      · rw [Frame.slot_of_bare hbare]
        exact hret
      · rw [← Frame.slot_of_bare hbare]
        exact ih hfr'

/-- With `--no-returns` they all belong to functions that feed the caches. -/
theorem frame_alwaysWatch {S : Session} (hoff : S.cfg.noReturns = true) {recs : List Record}
    {k : Key} {fr : Frame} (hfr : (Tracker.after S recs).frames k = some fr) :
    alwaysWatch (slotName fr.slot) = true := by
  have hret := frame_retSet hfr
  unfold Session.retSet at hret
  rw [hoff] at hret
  simpa using hret

/-! ### The returns that are printed -/

/-- The filters in force at a return accept its function, its depth and its text. -/
def acceptsReturn (S : Session) (env : Env) (t : Tracker) (e : Evt) (fr : Frame) : Bool :=
  selected S env.filters fr.slot e.depth && fr.call ≠ [] &&
    env.filters.matchLine (splitClassMethod fr.call).1 (splitClassMethod fr.call).2
      (fr.call ++ fmtRet (learn env.mr fr e.rc t.caches) env.mr (slotRet fr.slot) e.rc) fr.caller

theorem handleReturn_emits {S : Session} {env : Env} {t : Tracker} {e : Evt} {fr : Frame}
    (hdepth : 0 ≤ e.depth) (hfr : t.frames e.key = some fr) :
    (handleReturn S env t e).2.isSome = acceptsReturn S env t e fr := by
  rw [handleReturn_found S env t e hdepth hfr, returnLine_emits]
  rfl

theorem return_emitsAt {S : Session} {recs : List Record} {n : Nat} {r : Record}
    (hr : recs[n]? = some r) (hkind : r.evt.kind = 1) :
    emitsAt S recs n = true ↔ ∃ fr, takesFrame S r.evt = true ∧
      (Tracker.after S (recs.take n)).frames r.evt.key = some fr ∧
      acceptsReturn S r.env (Tracker.after S (recs.take n)) r.evt fr = true := by
  unfold emitsAt
  rw [hr]
  dsimp only
  cases hw : watched S.cfg r.evt.tid with
  | false =>
      rw [handleEvent_unwatched r.env _ r.evt hw]
      apply iff_of_false Bool.false_ne_true
      rintro ⟨fr, htakes, -⟩
      simp [takesFrame, hw] at htakes
  | true =>
      rw [handleEvent_return r.env _ r.evt hw hkind]
      have htakes : takesFrame S r.evt = true ↔ 0 ≤ r.evt.depth := by
        simp [takesFrame, hw, hkind]
      by_cases hdepth : 0 ≤ r.evt.depth
      · cases hfr : (Tracker.after S (recs.take n)).frames r.evt.key with
        | none =>
            rw [handleReturn_missing S r.env _ r.evt hfr]
            apply iff_of_false Bool.false_ne_true
            rintro ⟨fr, -, hsome, -⟩
            cases hsome
        | some fr =>
            rw [handleReturn_emits hdepth hfr]
            constructor
            · intro haccepts
              exact ⟨fr, htakes.mpr hdepth, rfl, haccepts⟩
            · rintro ⟨fr', -, hsame, haccepts⟩
              rwa [← Option.some.inj hsame] at haccepts
      · have hnegative : r.evt.depth < 0 := Int32.not_le.mp hdepth
        unfold handleReturn
        rw [if_pos hnegative]
        apply iff_of_false Bool.false_ne_true
        rintro ⟨fr, htake, -⟩
        exact hdepth (htakes.mp htake)

/-- No return of the stream adds a line to the output or to the counts. -/
def ReturnsSilent (S : Session) (recs : List Record) : Prop :=
  ∀ (n : Nat) (r : Record), recs[n]? = some r → r.evt.kind = 1 →
    (Loader.after S (recs.take (n + 1))).output = (Loader.after S (recs.take n)).output

/-- With `--no-returns` no return adds to the output of a stream exactly if,
whenever a function that feeds the caches returns and its frame is found, the
filters in force do not accept it. -/
theorem no_returns_silent_iff (S : Session) (hoff : S.cfg.noReturns = true) (recs : List Record) :
    ReturnsSilent S recs ↔ ∀ (n : Nat) (r : Record) (fr : Frame), recs[n]? = some r →
      takesFrame S r.evt = true → (Tracker.after S (recs.take n)).frames r.evt.key = some fr →
      alwaysWatch (slotName fr.slot) = true →
      acceptsReturn S r.env (Tracker.after S (recs.take n)) r.evt fr = false := by
  constructor
  · intro h n r fr hr htakes hfr _
    have hkind : r.evt.kind = 1 := by
      simp only [takesFrame, Bool.and_eq_true, decide_eq_true_eq] at htakes
      exact htakes.1.2
    have hsilent := (output_unchanged_iff hr).mp (h n r hr hkind)
    rw [← Bool.not_eq_true]
    intro haccepts
    rw [(return_emitsAt hr hkind).mpr ⟨fr, htakes, hfr, haccepts⟩] at hsilent
    cases hsilent
  · intro h n r hr hkind
    rw [output_unchanged_iff hr, ← Bool.not_eq_true]
    intro hemits
    obtain ⟨fr, htakes, hfr, haccepts⟩ := (return_emitsAt hr hkind).mp hemits
    rw [h n r fr hr htakes hfr (frame_alwaysWatch hoff hfr)] at haccepts
    cases haccepts

namespace Scenario

/-- `FindClass` at offset 0, traced with `--no-returns`. -/
def quietSession : Session :=
  ⟨{ config with noReturns := true }, filters, table [6], 0⟩

/-- The records of one call of it. -/
def quietCall : List Record := (Machine.run quietSession .all (oneCall 0)).ring

def quietLine (n : Nat) : Option Bytes :=
  quietCall[n]?.bind (fun r =>
    (handleEvent quietSession r.env (Tracker.after quietSession (quietCall.take n)) r.evt).2)

end Scenario

open Scenario in
/-- The return of `FindClass` is printed all the same. -/
theorem quiet_session_prints_return :
    quietSession.cfg.noReturns = true ∧
      quietLine 1 = some (str "<- FindClass(NULL) = null  (0.000 ms)") ∧
      ¬ ReturnsSilent quietSession quietCall := by
  have hprinted : quietLine 1 = some (str "<- FindClass(NULL) = null  (0.000 ms)") := by
    decide +kernel
  refine ⟨rfl, hprinted, ?_⟩
  intro h
  have hkinds : quietCall.map (fun r => r.evt.kind) = [0, 1] := by decide +kernel
  have hlen : 1 < quietCall.length := by
    have hcount := congrArg List.length hkinds
    rw [List.length_map] at hcount
    rw [hcount]
    decide
  have hr : quietCall[1]? = some quietCall[1] := List.getElem?_eq_getElem hlen
  have hkind : quietCall[1].evt.kind = 1 := by
    have hsecond := congrArg (fun l => l[1]?) hkinds
    simpa [hr] using hsecond
  have hsilent := (output_unchanged_iff hr).mp (h 1 _ hr hkind)
  unfold quietLine at hprinted
  rw [hr] at hprinted
  unfold emitsAt at hsilent
  rw [hr] at hsilent
  dsimp only [Option.bind_some] at hprinted hsilent
  rw [hprinted] at hsilent
  cases hsilent

namespace Scenario

/-- A hit processed while the list of modes is empty. -/
def unwantedHit : Hit :=
  ⟨plainHit.ctx, some blank, ⟨none, fun _ => [], { filters with modes := [] }⟩⟩

/-- The records of a call of `FindClass` that no mode wants. -/
def unwantedCall : List Record :=
  (Machine.run quietSession .all [.enter 1 0 unwantedHit, .leave 1 unwantedHit]).ring

theorem unwantedCall_filters : ∀ r ∈ unwantedCall, r.env.filters.modes = [] ∧
    r.env.filters.only = [] ∧ r.env.filters.exclude = [] := by
  apply Machine.forall_ring
  · intro m tid off hit raw hin
    rcases List.mem_pair.mp hin with h | h
    · cases h
      exact ⟨rfl, rfl, rfl⟩
    · cases h
  · intro m tid hit call raw hin
    rcases List.mem_pair.mp hin with h | h
    · cases h
    · cases h
      exact ⟨rfl, rfl, rfl⟩

end Scenario

open Scenario in
/-- Such a call prints nothing. -/
theorem no_returns_silent_unwanted : ReturnsSilent quietSession unwantedCall := by
  apply (no_returns_silent_iff quietSession rfl unwantedCall).mpr
  intro n r fr hr _ _ _
  obtain ⟨hmodes, honly, hexclude⟩ := unwantedCall_filters r (List.mem_of_getElem? hr)
  have hmatch : r.env.filters.matchSlot fr.slot = false := by
    unfold Filters.matchSlot
    rw [hmodes, honly, hexclude]
    rfl
  rw [acceptsReturn, selected, hmatch]
  rfl

end JniProbe
