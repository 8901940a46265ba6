import JniProbe.Properties.Lines
import JniProbe.System.TwoSessions

/-!
Filters changed while the tracer runs. A command changes what the event loop
shows, but the return probes are chosen once, by the filters of the start. So a
session whose filters have been changed goes on like one started with the new
filters, as long as only functions are called about whose returns both choose
alike.
-/

namespace JniProbe

open GoText

/-- A session whose filters commands have changed into `final`, and one that is
started with options that give these filters. -/
structure Retuned (compile : Bytes → Option (Bytes → Bool)) (options options' : FilterOptions)
    (typed : List Bytes) (final : Filters) (S S' : Session) : Prop extends S.SameBut S' where
  started : newFilters compile options = some S.filters
  changed : readCommands S.filters typed = some final
  fresh : newFilters compile options' = some S'.filters
  same : final.Same S'.filters

section Retuned

variable {compile : Bytes → Option (Bytes → Bool)} {options options' : FilterOptions}
  {typed : List Bytes} {final : Filters} {S S' : Session}

/-- What the fresh session tracks is what the changed filters would choose. -/
theorem Retuned.retSet (h : Retuned compile options options' typed final S S') (slot : Nat) :
    S'.retSet slot = ({ S with filters := final } : Session).retSet slot := by
  simp only [Session.retSet, ← h.cfg, h.same.matchSlot]

theorem Retuned.tracksAlike (h : Retuned compile options options' typed final S S') {a : Action}
    (ha : a.TracksAlike S { S with filters := final }) : a.TracksAlike S S' := by
  cases a with
  | leave tid hit => trivial
  | enter tid off hit =>
      intro slot hslot
      rw [h.retSet]
      exact ha slot hslot

/-- The start-up filters and the changed ones differ about a return probe only
where they differ about showing the function. -/
theorem Session.retSet_of_matchSlot {slot : Nat}
    (h : S.filters.matchSlot slot = final.matchSlot slot) :
    S.retSet slot = ({ S with filters := final } : Session).retSet slot := by
  simp only [Session.retSet, h]

/-- One target run, seen by a session whose filters are changed after `before`
and by one that has the resulting filters from the start. No tracked call is
open at the change, nothing is lost, the maps of both sessions have room, and
every function called later is tracked by the start-up filters as it would be
by the changed ones. Then the lines of the later calls are the same but for
durations. -/
theorem live_filters_as_fresh (h : Retuned compile options options' typed final S S')
    {before before' after after' : List Action}
    (hbefore : List.Forall₂ (Action.Alike Hit.SameMoment) before before')
    (hafter : List.Forall₂ (Action.Alike Hit.SameMoment) after after')
    (hfilters : ∀ a ∈ after, a.hit.env.filters = final)
    (hfilters' : ∀ a ∈ after', a.hit.env.filters = S'.filters)
    (hquiet : ∀ t, (Machine.run S .all before).openTracked S t = [])
    (hquiet' : ∀ t, (Machine.run S' .all before').openTracked S' t = [])
    (hcovered : Covered S (before ++ after)) (hcovered' : Covered S' (before' ++ after'))
    (hputs : S.PutsSucceed) (hputs' : S'.PutsSucceed)
    (halike : ∀ a ∈ after, a.TracksAlike S { S with filters := final }) :
    List.Forall₂ SameLine (linesSince S before after) (linesSince S' before' after') := by
  have hbeside : Beside S S' (Machine.run S .all before) (Machine.run S' .all before') :=
    beside_of_quiet h.toSameBut hbefore (hcovered.of_prefix (List.prefix_append _ _))
      (hcovered'.of_prefix (List.prefix_append _ _)) hquiet hquiet'
  have hsame : List.Forall₂ Action.SameFilters after after' := by
    rw [List.forall₂_iff_get]
    refine ⟨hafter.length_eq, ?_⟩
    intro i hi hi'
    unfold Action.SameFilters
    rw [hfilters _ (List.get_mem _ _), hfilters' _ (List.get_mem _ _)]
    exact h.same
  apply Machine.StepsAlike.linesSince
  exact hbeside.run h.toSameBut hputs hputs' hafter hsame
    (fun a ha => h.tracksAlike (halike a ha)) hcovered hcovered'

end Retuned

/-! ### A function that the start-up filters left out -/

namespace Scenario

def allOptions : FilterOptions := ⟨str "all", [], [], [], [], [], []⟩

/-- `GetVersion` at offset 0, under these filters. -/
def versionSession (f : Filters) : Session := { session (table [4]) with filters := f }

def findClassOnly : Filters := { filters with only := [str "FindClass"] }

theorem length_versionSession (f : Filters) : (versionSession f).offsets.entries.length = 1 := rfl

theorem covered_version (f : Filters) {acts : List Action} (hlen : acts.length ≤ 4096)
    (hreserved : ∀ a ∈ acts, a.hit.reserved.isSome = true) :
    Covered (versionSession f) acts := by
  apply Monitored.covered
  apply Monitored.of_short _ hlen hreserved
  have hle := List.length_filterMap_le
    (fun p => if (versionSession f).retSet p.2 then some p.1 else none)
    (versionSession f).offsets.entries
  rw [length_versionSession] at hle
  exact hle.trans (by decide)

theorem putsSucceed_version (f : Filters) : (versionSession f).PutsSucceed := by
  apply Session.putsSucceed_of_length
  · exact (List.length_filterMap_le _ _).trans (by rw [length_versionSession]; decide)
  · exact (List.length_filterMap_le _ _).trans (by rw [length_versionSession]; decide)

theorem sameMoment_oneCall :
    List.Forall₂ (Action.Alike Hit.SameMoment) (oneCall 0) (oneCall 0) := by
  have hhit : plainHit.SameMoment plainHit := ⟨rfl, rfl, rfl, rfl, rfl⟩
  exact .cons ⟨rfl, rfl, hhit⟩ (.cons ⟨rfl, hhit⟩ .nil)

def grepVersion : Filters := { filters with grep := str "Version" }

/-- A hit that is processed under these filters. -/
def hitUnder (f : Filters) : Hit := { plainHit with env := { plainHit.env with filters := f } }

theorem quiet_oneCall (S : Session) (t : UInt32) :
    (Machine.run S .all (oneCall 0)).openTracked S t = [] := by
  have hstack : (Machine.run S .all [.enter 1 0 plainHit]).callStacks 1 =
      [⟨0, 0, Machine.counts S .all Machine.start 1 0 plainHit⟩] := by
    simp only [Machine.run, Runs.run, List.foldl_cons, List.foldl_nil, Machine.step,
      Machine.stacks_enter, Function.update_self]
    rfl
  have hrun : Machine.run S .all (oneCall 0) =
      Machine.leave S .all (Machine.run S .all [.enter 1 0 plainHit]) 1 plainHit := rfl
  rw [Machine.openTracked, hrun, Machine.stacks_leave hstack]
  by_cases ht : t = 1
  · subst ht
    rw [Function.update_self]
    rfl
  · rw [Function.update_of_ne ht]
    simp only [Machine.run, Runs.run, List.foldl_cons, List.foldl_nil, Machine.step,
      Machine.stacks_enter, Function.update_of_ne ht]
    rfl

end Scenario

open Scenario in
/-- Started with `--only FindClass` and cleared before the first call, a session
prints the entry of `GetVersion` only; one started without the option prints
its return as well. -/
theorem cleared_filters_miss_returns :
    Retuned (fun _ => none) { allOptions with only := str "FindClass" } allOptions [str "clear"]
        Filters.cleared (versionSession findClassOnly) (versionSession filters) ∧
      List.Forall₂ (Action.Alike Hit.SameMoment) (oneCall 0) (oneCall 0) ∧
      (∀ a ∈ oneCall 0, a.hit.env.filters = Filters.cleared) ∧
      Covered (versionSession findClassOnly) (oneCall 0) ∧
      Covered (versionSession filters) (oneCall 0) ∧
      (versionSession findClassOnly).PutsSucceed ∧ (versionSession filters).PutsSucceed ∧
      (linesSince (versionSession findClassOnly) [] (oneCall 0)).length = 1 ∧
      ¬ List.Forall₂ SameLine (linesSince (versionSession findClassOnly) [] (oneCall 0))
        (linesSince (versionSession filters) [] (oneCall 0)) := by
  have hone : (linesSince (versionSession findClassOnly) [] (oneCall 0)).length = 1 := by
    decide +kernel
  have htwo : (linesSince (versionSession filters) [] (oneCall 0)).length = 2 := by
    decide +kernel
  refine ⟨⟨⟨rfl, rfl, fun _ => rfl⟩, ?_, ?_, ?_, .refl _⟩, sameMoment_oneCall, ?_,
    covered_version _ (by decide) (by decide), covered_version _ (by decide) (by decide),
    putsSucceed_version _, putsSucceed_version _, hone, ?_⟩
  · exact newFilters_eq_some.mpr ⟨rfl, rfl, by decide, by decide, rfl, rfl, rfl⟩
  · rfl
  · exact newFilters_eq_some.mpr ⟨rfl, rfl, by decide, rfl, rfl, rfl, rfl⟩
  · intro a ha
    simp only [oneCall, List.mem_cons, List.not_mem_nil, or_false] at ha
    rcases ha with rfl | rfl
    · rfl
    · rfl
  · intro hlines
    have hlength := hlines.length_eq
    rw [hone, htwo] at hlength
    cases hlength

open Scenario in
/-- A session narrowed to `Version` by `grep` after a first call. -/
theorem live_filters_as_fresh_grep :
    List.Forall₂ SameLine
      (linesSince (versionSession filters) (oneCall 0) [.enter 1 0 (hitUnder grepVersion),
        .leave 1 (hitUnder grepVersion)])
      (linesSince (versionSession grepVersion) (oneCall 0) [.enter 1 0 (hitUnder grepVersion),
        .leave 1 (hitUnder grepVersion)]) := by
  have hsame : (hitUnder grepVersion).SameMoment (hitUnder grepVersion) := ⟨rfl, rfl, rfl, rfl, rfl⟩
  have hretuned : Retuned (fun _ => none) allOptions { allOptions with grep := str "Version" }
      [str "grep Version"] grepVersion (versionSession filters) (versionSession grepVersion) := by
    refine ⟨⟨rfl, rfl, fun _ => rfl⟩, ?_, rfl, ?_, .refl _⟩
    · exact newFilters_eq_some.mpr ⟨rfl, rfl, by decide, rfl, rfl, rfl, rfl⟩
    · exact newFilters_eq_some.mpr ⟨rfl, rfl, by decide, rfl, rfl, rfl, rfl⟩
  have hfilters : ∀ a ∈ [Action.enter 1 0 (hitUnder grepVersion), .leave 1 (hitUnder grepVersion)],
      a.hit.env.filters = grepVersion := by
    intro a ha
    simp only [List.mem_cons, List.not_mem_nil, or_false] at ha
    rcases ha with rfl | rfl
    · rfl
    · rfl
  have halike : ∀ a ∈ [Action.enter 1 0 (hitUnder grepVersion), .leave 1 (hitUnder grepVersion)],
      a.TracksAlike (versionSession filters)
        { versionSession filters with filters := grepVersion } := by
    intro a _
    cases a with
    | leave tid hit => trivial
    | enter tid off hit =>
        intro slot _
        exact Session.retSet_of_matchSlot rfl
  exact live_filters_as_fresh hretuned sameMoment_oneCall
    (.cons ⟨rfl, rfl, hsame⟩ (.cons ⟨rfl, hsame⟩ .nil)) hfilters hfilters
    (quiet_oneCall _) (quiet_oneCall _) (covered_version _ (by decide) (by decide))
    (covered_version _ (by decide) (by decide)) (putsSucceed_version _) (putsSucceed_version _)
    halike

end JniProbe
