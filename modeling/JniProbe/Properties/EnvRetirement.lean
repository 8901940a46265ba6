import JniProbe.Bpf.EnvProbe

/-!
When `envprobe` stops probing a process. Both probes enter the process into
`seen` after their two attempts, whether or not one of them has delivered a
dump. What a hit must find for the map to tell the truth is stated per hit, and
from there for every sequence of hits.
-/

namespace JniProbe

open EnvProbe

namespace EnvProbe

/-- What one call of `emit` is given, and what it finds. -/
structure Candidate where
  site : UInt32
  reg : UInt32
  cand : UInt64
  found : Attempt

/-- The calls of `emit` at a hit, in order. -/
def EnvHit.candidates (hit : EnvHit) : List Candidate :=
  match hit.probe with
  | .lnl => [⟨1, 1, hit.parm2, hit.first⟩, ⟨1, 0, hit.parm1, hit.second⟩]
  | .cnt => [⟨2, 0, hit.parm1, hit.first⟩, ⟨2, 1, hit.parm2, hit.second⟩]

/-- The dumps that a hit delivers when the process is still probed. -/
def EnvHit.dumps (hit : EnvHit) : List EnvDump :=
  hit.candidates.filterMap (fun c =>
    emit hit.pid c.found.mem c.site c.reg c.cand c.found.reserved)

/-- One of the registers is tried at a moment when it leads to a table and the
ring has room. -/
def EnvHit.Delivers (hit : EnvHit) : Prop :=
  ∃ c ∈ hit.candidates, ValidEnv c.found.mem c.cand ∧ c.found.reserved = true

private theorem filterMap_pair {α β : Type} (f : α → Option β) (a b : α) :
    [a, b].filterMap f = (f a).toList ++ (f b).toList := by
  cases ha : f a with
  | none => cases hb : f b <;> simp [ha, hb]
  | some x => cases hb : f b <;> simp [ha, hb]

theorem step_eq (st : EnvState) (hit : EnvHit) : step st hit =
    if (st.seen.lookup hit.pid).isSome then st
    else ⟨st.seen.update hit.pid 1, st.events ++ hit.dumps⟩ := by
  unfold step EnvHit.dumps EnvHit.candidates
  cases hit.probe with
  | lnl => simp only [upLnl, probeOnce, filterMap_pair, List.append_assoc]
  | cnt => simp only [upCnt, probeOnce, filterMap_pair, List.append_assoc]

/-- A process that is retired is left alone, any other is probed and retired. -/
theorem step_seen {st : EnvState} {hit : EnvHit} (h : hit.pid ∈ st.seen.entries) :
    step st hit = st := by
  rw [step_eq, if_pos ((st.seen.mem_iff_lookup hit.pid).mp h)]

theorem step_fresh {st : EnvState} {hit : EnvHit} (h : hit.pid ∉ st.seen.entries) :
    step st hit = ⟨st.seen.update hit.pid 1, st.events ++ hit.dumps⟩ := by
  rw [step_eq, if_neg (fun hsome => h ((st.seen.mem_iff_lookup hit.pid).mpr hsome))]

theorem delivers_iff (hit : EnvHit) : hit.Delivers ↔ ∃ d, d ∈ hit.dumps := by
  unfold EnvHit.Delivers EnvHit.dumps
  constructor
  · rintro ⟨c, hc, hvalid⟩
    rw [← emit_isSome_iff hit.pid c.found.mem c.site c.reg c.cand] at hvalid
    obtain ⟨d, hd⟩ := Option.isSome_iff_exists.mp hvalid
    exact ⟨d, List.mem_filterMap.mpr ⟨c, hc, hd⟩⟩
  · rintro ⟨d, hd⟩
    obtain ⟨c, hc, hemit⟩ := List.mem_filterMap.mp hd
    exact ⟨c, hc, (emit_isSome_iff _ _ _ _ _ _).mp (Option.isSome_of_eq_some hemit)⟩

theorem dumps_pid {hit : EnvHit} {d : EnvDump} (h : d ∈ hit.dumps) : d.pid = hit.pid := by
  obtain ⟨c, -, hemit⟩ := List.mem_filterMap.mp h
  exact emit_pid hemit

/-! ### Retired and delivered -/

/-- A dump of the process has been submitted. -/
def EnvState.Delivered (st : EnvState) (pid : UInt32) : Prop := ∃ d ∈ st.events, d.pid = pid

/-- `seen` holds processes with a dump only. -/
def EnvState.Honest (st : EnvState) : Prop := ∀ pid ∈ st.seen.entries, st.Delivered pid

/-- The converse, as far as the capacity of `seen` allows. -/
def EnvState.Retiring (st : EnvState) : Prop :=
  ∀ pid, st.Delivered pid → pid ∈ st.seen.entries ∨ ¬ st.seen.Accepts pid

/-- The first hit that `seen` has room for delivers a dump. -/
def RetiresDelivered (st : EnvState) (hit : EnvHit) : Prop :=
  hit.pid ∉ st.seen.entries → st.seen.Accepts hit.pid → hit.Delivers

theorem delivered_mono {st : EnvState} (hit : EnvHit) {pid : UInt32} (h : st.Delivered pid) :
    (step st hit).Delivered pid := by
  by_cases hseen : hit.pid ∈ st.seen.entries
  · rwa [step_seen hseen]
  · rw [step_fresh hseen]
    obtain ⟨d, hd, hpid⟩ := h
    exact ⟨d, List.mem_append_left _ hd, hpid⟩

theorem delivered_of_delivers {st : EnvState} {hit : EnvHit} (hseen : hit.pid ∉ st.seen.entries)
    (h : hit.Delivers) : (step st hit).Delivered hit.pid := by
  rw [step_fresh hseen]
  obtain ⟨d, hd⟩ := (delivers_iff hit).mp h
  exact ⟨d, List.mem_append_right _ hd, dumps_pid hd⟩

theorem honest_step {st : EnvState} {hit : EnvHit} (h : st.Honest)
    (hretires : RetiresDelivered st hit) : (step st hit).Honest := by
  intro pid hpid
  by_cases hseen : hit.pid ∈ st.seen.entries
  · rw [step_seen hseen] at hpid ⊢
    exact h pid hpid
  · rw [step_fresh hseen] at hpid
    rcases st.seen.mem_of_mem_update hit.pid pid 1 hpid with rfl | hold
    · have haccepts := st.seen.accepts_of_mem_update hit.pid 1 hpid
      exact delivered_of_delivers hseen (hretires hseen haccepts)
    · exact delivered_mono hit (h pid hold)

theorem retiring_step {st : EnvState} (hit : EnvHit) (h : st.Retiring) :
    (step st hit).Retiring := by
  intro pid hdelivered
  by_cases hseen : hit.pid ∈ st.seen.entries
  · rw [step_seen hseen] at hdelivered ⊢
    exact h pid hdelivered
  · rw [step_fresh hseen] at hdelivered ⊢
    by_cases hpid : pid = hit.pid
    · subst hpid
      by_cases haccepts : st.seen.Accepts hit.pid
      · exact Or.inl ((st.seen.mem_update hit.pid hit.pid 1 haccepts).mpr (Or.inl rfl))
      · rw [st.seen.update_of_not_accepts hit.pid 1 haccepts]
        exact Or.inr haccepts
    · obtain ⟨d, hd, hdpid⟩ := hdelivered
      rcases List.mem_append.mp hd with hold | hnew
      · rcases h pid ⟨d, hold, hdpid⟩ with hmem | hfull
        · exact Or.inl (st.seen.mem_update_of_mem hit.pid 1 hmem)
        · exact Or.inr (fun hroom => hfull (st.seen.accepts_of_accepts_update _ _ _ hroom))
      · exact absurd (hdpid.symm.trans (dumps_pid hnew)) hpid

theorem run_concat (hits : List EnvHit) (hit : EnvHit) :
    run (hits ++ [hit]) = step (run hits) hit :=
  Runs.run_concat step EnvState.start hits hit

theorem honest_start : EnvState.start.Honest := by
  intro pid hpid
  cases hpid

theorem retiring_run (hits : List EnvHit) : (run hits).Retiring := by
  induction hits using List.reverseRecOn with
  | nil =>
      rintro pid ⟨d, hd, -⟩
      cases hd
  | append_singleton hits hit ih =>
      rw [run_concat]
      exact retiring_step hit ih

end EnvProbe

/-- In every state of a run the retired processes have delivered, and a process
that has not delivered is captured by its next hit with a valid candidate. -/
structure RetiredAfterDump (hits : List EnvHit) : Prop where
  retired : ∀ before, before <+: hits → ∀ pid,
    ((run before).seen.lookup pid).isSome = true → (run before).Delivered pid
  captured : ∀ before hit, before ++ [hit] <+: hits → ¬ (run before).Delivered hit.pid →
    hit.Delivers → (run (before ++ [hit])).Delivered hit.pid

/-- Every process is retired after a dump exactly if, in the state it is taken
in, each hit of a process that `seen` does not hold and has room for delivers. -/
theorem retired_after_dump_iff (hits : List EnvHit) : RetiredAfterDump hits ↔
    Runs.Along step RetiresDelivered EnvState.start hits := by
  constructor
  · intro h
    rw [Runs.along_iff_prefix]
    intro before hit hwithin
    change RetiresDelivered (run before) hit
    intro hseen haccepts
    have hrun : run (before ++ [hit]) =
        ⟨(run before).seen.update hit.pid 1, (run before).events ++ hit.dumps⟩ := by
      rw [run_concat, step_fresh hseen]
    have hmem : ((run (before ++ [hit])).seen.lookup hit.pid).isSome = true := by
      rw [hrun, ← BoundedMap.mem_iff_lookup]
      exact (BoundedMap.mem_update _ hit.pid hit.pid 1 haccepts).mpr (Or.inl rfl)
    obtain ⟨d, hd, hpid⟩ := h.retired _ hwithin hit.pid hmem
    rw [hrun] at hd
    rcases List.mem_append.mp hd with hold | hnew
    · rcases retiring_run before hit.pid ⟨d, hold, hpid⟩ with hin | hfull
      · exact absurd hin hseen
      · exact absurd haccepts hfull
    · exact (delivers_iff hit).mpr ⟨d, hnew⟩
  · intro h
    have hretired : ∀ before, before <+: hits → (run before).Honest := by
      intro before hwithin
      exact Runs.invariant step (fun _ _ => honest_step) honest_start (h.of_prefix step hwithin)
    refine ⟨?_, ?_⟩
    · intro before hwithin pid hpid
      exact hretired before hwithin pid ((BoundedMap.mem_iff_lookup _ pid).mpr hpid)
    · intro before hit hwithin hnone hdelivers
      have hseen : hit.pid ∉ (run before).seen.entries := by
        intro hmem
        exact hnone (hretired before ((List.prefix_append _ _).trans hwithin) hit.pid hmem)
      rw [run_concat]
      exact delivered_of_delivers hseen hdelivers

namespace Scenario

/-- A process at `CreateNativeThread`; the memory is not readable yet. -/
def earlyHit : EnvHit where
  probe := .cnt
  pid := 7
  parm1 := 0x20000
  parm2 := 0
  first := ⟨fun _ => none, true⟩
  second := ⟨fun _ => none, true⟩

/-- The next hit, where every word is the address of a table. -/
def validHit : EnvHit :=
  { earlyHit with first := ⟨fun a => some (if a % 8 = 2 then 2 else 0), true⟩ }

end Scenario

open Scenario in
/-- A first hit without a dump retires the process, and its valid `JNIEnv` is
never captured. -/
theorem failed_attempt_retires : validHit.Delivers ∧
    ((run [earlyHit]).seen.lookup 7).isSome = true ∧ (run [earlyHit]).events = [] ∧
    (run [earlyHit, validHit]).events = [] ∧ ¬ RetiredAfterDump [earlyHit, validHit] := by
  have hseen : ((run [earlyHit]).seen.lookup 7).isSome = true := by decide +kernel
  have hdumps : (run [earlyHit]).events = [] := rfl
  have hvalid : validHit.Delivers := by
    rw [delivers_iff]
    apply List.exists_mem_of_ne_nil
    decide +kernel
  refine ⟨hvalid, hseen, hdumps, rfl, ?_⟩
  intro h
  obtain ⟨d, hd, -⟩ := h.retired [earlyHit] (List.prefix_append [earlyHit] [validHit]) 7 hseen
  rw [hdumps] at hd
  exact List.not_mem_nil hd

end JniProbe
