import JniProbe.System.IdealTracer
import JniProbe.System.Interleaving

/-!
Overlapping probes. Whatever the threads do between the operations of a probe,
the records that can be read are those of probes that run at once, in the order
in which they reserved their places; so the loader is never ahead of the ideal
tracer and never sees anything else than it.
-/

namespace JniProbe

open GoText Scenario

namespace Interleaved

/-- Operations of running probes add no action. -/
theorem reached_ticks (S : Session) (att : Attachment) (c : Interleaved) (tids : List UInt32) :
    Runs.run (step S att) c (tids.map ProbeMove.tick) =
      { c with log := tids.foldl (ReserveLog.tick depthCells) c.log } := by
  induction tids generalizing c with
  | nil => rfl
  | cons tid rest ih => rw [List.map_cons, Runs.run_cons, ih, List.foldl_cons]; rfl

end Interleaved

/-- The records that the reader can take are always the first ones of the run
in which every probe runs at once; they are all of them when no probe is
running, and the running probes can always end so. -/
theorem overlapping_probes_linearize (S : Session) (att : Attachment) (moves : List ProbeMove)
    (hthreads : ((Interleaved.run S att moves).reached.map Action.tid).dedup.length ≤ 4096) :
    (Interleaved.run S att moves).visible <+:
        (Machine.run S att (Interleaved.run S att moves).reached).ring ∧
      ((Interleaved.run S att moves).log.Quiet → (Interleaved.run S att moves).visible =
        (Machine.run S att (Interleaved.run S att moves).reached).ring) ∧
      ∃ tids : List UInt32,
        (Interleaved.run S att (moves ++ tids.map .tick)).log.Quiet ∧
        (Interleaved.run S att (moves ++ tids.map .tick)).visible =
          (Machine.run S att (Interleaved.run S att moves).reached).ring := by
  have hlog := (Interleaved.follows_run S att hthreads moves
    (fun a ha => List.mem_map_of_mem ha)).log
  refine ⟨hlog.visible_prefix, hlog.visible_of_quiet, ?_⟩
  obtain ⟨tids, hquiet⟩ := hlog.exists_quiet
  refine ⟨tids, ?_, ?_⟩
  · rw [Interleaved.run_append, Interleaved.reached_ticks]
    exact hquiet
  · rw [Interleaved.run_append, Interleaved.reached_ticks]
    exact (hlog.ticks tids).visible_of_quiet hquiet

/-- Whatever part of the readable records the loader has processed, it has
learnt and printed what the ideal tracer learns and prints of the first actions,
in the order in which the threads reached their probes. -/
theorem overlapping_probes_output (S : Session) (moves : List ProbeMove)
    (hmonitored : Monitored S (Interleaved.run S .all moves).reached) (read : List Record)
    (hread : read <+: (Interleaved.run S .all moves).visible) :
    ∃ before, before <+: (Interleaved.run S .all moves).reached ∧
      (Tracker.after S read).caches = (IdealTracer.run S before).caches ∧
      (Loader.after S read).output = (IdealTracer.run S before).output := by
  have hvisible := (Interleaved.follows_run S .all hmonitored.threads moves
    (fun a ha => List.mem_map_of_mem ha)).log.visible_prefix
  have hprefix := hread.trans hvisible
  obtain ⟨before, hwithin, hring⟩ :=
    Machine.ring_prefix S .all (Interleaved.run S .all moves).reached read.length hprefix.length_le
  have hsame : (Machine.run S .all before).ring = read :=
    hring.trans (List.prefix_iff_eq_take.mp hprefix).symm
  have hrealizes := (hmonitored.covered.of_prefix hwithin).realizes
  rw [← hsame]
  exact ⟨before, hwithin, hrealizes.caches, hrealizes.output⟩

/-! ### Two threads whose probes overlap -/

/-- Thread 1 starts first; its probe is still running when thread 2 has entered
and left a function. -/
def overlap : List ProbeMove :=
  [.reach (.enter 1 0 plainHit), .tick 1, .reach (.enter 2 0 plainHit), .tick 2, .tick 2, .tick 2,
    .reach (.leave 2 plainHit), .tick 2, .tick 2, .tick 2]

def overlapSession : Session := session (table [6])

theorem reached_overlap : (Interleaved.run overlapSession .all overlap).reached =
    [.enter 1 0 plainHit, .enter 2 0 plainHit, .leave 2 plainHit] := rfl

example : (Interleaved.run overlapSession .all overlap).visible = [] := rfl

theorem overlap_linearizes : ∃ tids : List UInt32,
    (Interleaved.run overlapSession .all (overlap ++ tids.map .tick)).visible =
      (Machine.run overlapSession .all
        [.enter 1 0 plainHit, .enter 2 0 plainHit, .leave 2 plainHit]).ring := by
  obtain ⟨-, -, tids, -, hvisible⟩ :=
    overlapping_probes_linearize overlapSession .all overlap (by rw [reached_overlap]; decide)
  rw [reached_overlap] at hvisible
  exact ⟨tids, hvisible⟩

/-- Thread 1 has submitted its record; the loader has read two of the three. -/
theorem overlap_output : ∃ before,
    before <+: [.enter 1 0 plainHit, .enter 2 0 plainHit, .leave 2 plainHit] ∧
      (Loader.after overlapSession ((Interleaved.run overlapSession .all
        (overlap ++ [.tick 1, .tick 1])).visible.take 2)).output =
          (IdealTracer.run overlapSession before).output := by
  have hreached : (Interleaved.run overlapSession .all (overlap ++ [.tick 1, .tick 1])).reached =
      [.enter 1 0 plainHit, .enter 2 0 plainHit, .leave 2 plainHit] := rfl
  obtain ⟨before, hwithin, -, houtput⟩ :=
    overlapping_probes_output overlapSession (overlap ++ [.tick 1, .tick 1])
      (by
        rw [hreached]
        apply Monitored.of_short
        · decide +kernel
        · decide
        · simp [Action.hit, plainHit, hit])
      _ (List.take_prefix 2 _)
  rw [hreached] at hwithin
  exact ⟨before, hwithin, houtput⟩

end JniProbe
