import JniProbe.Loader.Intake
import JniProbe.Loader.Learning
import JniProbe.System.Answers

/-!
The target and the loader as two processes joined by the ring. The target
changes its memory as it likes and meets probes; the loader takes the oldest
record it has not processed whenever it likes, and reads the memory as it is
then. A record carries the memory of the moment of its probe hit, so the ring
alone says what a loader without delay would have learnt.
-/

namespace JniProbe

open GoText

/-! ### Trackers that differ in texts only -/

theorem learn_of_core (mr : Option UserMemory) {fr fr' : Frame} (rc : UInt64) (cs : Caches)
    (h : fr.core = fr'.core) : learn mr fr rc cs = learn mr fr' rc cs := by
  obtain ⟨hslot, h1, h2, h3⟩ : fr.slot = fr'.slot ∧ fr.a1 = fr'.a1 ∧ fr.a2 = fr'.a2 ∧
      fr.a3 = fr'.a3 := by
    simpa [Frame.core] using h
  exact learn_congr mr rc cs hslot h1 h2 h3

structure Alike (t t' : Tracker) : Prop where
  caches : t.caches = t'.caches
  frames : ∀ k, (t.frames k).map Frame.core = (t'.frames k).map Frame.core

theorem Alike.refl (t : Tracker) : Alike t t := ⟨rfl, fun _ => rfl⟩

section Alike

variable {S : Session} {t t' : Tracker} (env env' : Env) (e : Evt)

theorem Alike.handleEntry (h : Alike t t') :
    Alike (handleEntry S env t e).1 (handleEntry S env' t' e).1 := by
  refine ⟨?_, ?_⟩
  · rw [handleEntry_caches, handleEntry_caches, h.caches]
  · intro k
    rw [handleEntry_core, handleEntry_core, h.frames k]

/-- A return that gets the same intake keeps the trackers alike. -/
theorem Alike.handleReturn (h : Alike t t') (hreader : env.mr.isSome = env'.mr.isSome)
    (hsame : 0 ≤ e.depth → ∀ fr ∈ t.frames e.key, e.rc = 0 ∨
      intake (returnCase (slotName fr.slot)) env.mr fr e.rc =
        intake (returnCase (slotName fr.slot)) env'.mr fr e.rc) :
    Alike (handleReturn S env t e).1 (handleReturn S env' t' e).1 := by
  refine ⟨?_, ?_⟩
  · by_cases hdepth : 0 ≤ e.depth
    · have hkey := h.frames e.key
      cases hfr : t.frames e.key with
      | none =>
          have hfr' : t'.frames e.key = none := by simpa [hfr] using hkey.symm
          rw [handleReturn_missing _ _ _ _ hfr, handleReturn_missing _ _ _ _ hfr']
          exact h.caches
      | some fr =>
          obtain ⟨fr', hfr', hcore⟩ : ∃ fr', t'.frames e.key = some fr' ∧ fr'.core = fr.core := by
            rw [hfr] at hkey
            exact Option.map_eq_some_iff.mp hkey.symm
          rw [handleReturn_found _ _ _ _ hdepth hfr, handleReturn_found _ _ _ _ hdepth hfr']
          dsimp only
          rw [learn_of_core env'.mr e.rc t'.caches hcore, ← h.caches]
          rcases hsame hdepth fr hfr with hrc | hintake
          · simp [learn, hrc]
          · exact learn_of_intake _ _ _ _ _ hreader hintake
    · have hneg : e.depth < 0 := by simpa using hdepth
      simp only [JniProbe.handleReturn, hneg, if_true]
      exact h.caches
  · intro k
    rw [handleReturn_frames, handleReturn_frames]
    by_cases hneg : e.depth < 0
    · rw [if_pos hneg, if_pos hneg]
      exact h.frames k
    · rw [if_neg hneg, if_neg hneg]
      by_cases hk : k = e.key
      · subst hk
        rw [Function.update_self, Function.update_self]
      · rw [Function.update_of_ne hk, Function.update_of_ne hk]
        exact h.frames k

theorem Alike.handleEvent (h : Alike t t') (hreader : env.mr.isSome = env'.mr.isSome)
    (hsame : takesFrame S e = true → ∀ fr ∈ t.frames e.key, e.rc = 0 ∨
      intake (returnCase (slotName fr.slot)) env.mr fr e.rc =
        intake (returnCase (slotName fr.slot)) env'.mr fr e.rc) :
    Alike (handleEvent S env t e).1 (handleEvent S env' t' e).1 := by
  unfold JniProbe.handleEvent
  by_cases hw : watched S.cfg e.tid = true
  · by_cases hkind : e.kind = 1
    · simp only [hw, hkind, Bool.not_true, Bool.false_eq_true, if_false, if_true]
      apply h.handleReturn env env' e hreader
      intro hdepth
      apply hsame
      simp [takesFrame, hw, hkind, hdepth]
    · simp only [hw, hkind, Bool.not_true, Bool.false_eq_true, if_false]
      exact h.handleEntry env env' e
  · simpa [hw] using h

end Alike

/-! ### The two processes -/

/-- What the loader can read of a memory: nothing if it could not open it. -/
def reader (opened : Bool) (mem : UserMemory) : Option UserMemory :=
  if opened then some mem else none

def Env.at (env : Env) (opened : Bool) (mem : UserMemory) : Env :=
  { env with mr := reader opened mem }

/-- A probe hit in this memory. -/
def Hit.at (hit : Hit) (opened : Bool) (mem : UserMemory) : Hit :=
  ⟨{ hit.ctx with mem := mem }, hit.reserved, hit.env.at opened mem⟩

def Action.at (opened : Bool) (mem : UserMemory) : Action → Action
  | .enter tid off hit => .enter tid off (hit.at opened mem)
  | .leave tid hit => .leave tid (hit.at opened mem)

theorem Action.hit_at (opened : Bool) (mem : UserMemory) (a : Action) :
    (a.at opened mem).hit = a.hit.at opened mem := by
  cases a <;> rfl

/-- The target changes its memory or meets a probe; the loader processes the
oldest record it has not yet taken. -/
inductive Move where
  | write (mem : UserMemory)
  | probe (a : Action)
  | process

structure Delayed where
  machine : Machine
  mem : UserMemory
  done : Nat
  tracker : Tracker

namespace Delayed

def start (mem : UserMemory) : Delayed := ⟨Machine.start, mem, 0, Tracker.start⟩

def step (S : Session) (att : Attachment) (opened : Bool) (s : Delayed) : Move → Delayed
  | .write mem => { s with mem := mem }
  | .probe a => { s with machine := Machine.step S att s.machine (a.at opened s.mem) }
  | .process =>
    match s.machine.ring[s.done]? with
    | none => s
    | some r =>
      { s with
        done := s.done + 1
        tracker := (handleEvent S (r.env.at opened s.mem) s.tracker r.evt).1 }

def run (S : Session) (att : Attachment) (opened : Bool) (mem : UserMemory) (moves : List Move) :
    Delayed :=
  Runs.run (step S att opened) (start mem) moves

/-- What the loader would have learnt without delay from the records it took. -/
def onTime (S : Session) (s : Delayed) : Tracker :=
  Tracker.after S (s.machine.ring.take s.done)

/-- The return that is about to be processed finds in memory what was there
when the call returned. -/
def Steady (S : Session) (opened : Bool) (s : Delayed) : Move → Prop
  | .process => ∀ r ∈ s.machine.ring[s.done]?, takesFrame S r.evt = true →
      ∀ fr ∈ s.tracker.frames r.evt.key, r.evt.rc = 0 ∨
        intake (returnCase (slotName fr.slot)) (reader opened s.mem) fr r.evt.rc =
          intake (returnCase (slotName fr.slot)) r.env.mr fr r.evt.rc
  | _ => True

instance (S : Session) (opened : Bool) (s : Delayed) : ∀ mv, Decidable (Steady S opened s mv)
  | .process => inferInstanceAs (Decidable (∀ r ∈ s.machine.ring[s.done]?,
      takesFrame S r.evt = true → ∀ fr ∈ s.tracker.frames r.evt.key, r.evt.rc = 0 ∨
        intake (returnCase (slotName fr.slot)) (reader opened s.mem) fr r.evt.rc =
          intake (returnCase (slotName fr.slot)) r.env.mr fr r.evt.rc))
  | .write _ => isTrue trivial
  | .probe _ => isTrue trivial

/-- The ring comes from a run of the target in which every hit carries the
memory of its moment, and the loader has taken a part of it. -/
structure Ran (S : Session) (att : Attachment) (opened : Bool) (s : Delayed) : Prop where
  ring : ∃ acts, s.machine = Machine.run S att acts ∧
    ∀ a ∈ acts, a.hit.env.mr.isSome = opened
  taken : s.done ≤ s.machine.ring.length

theorem ran_start (S : Session) (att : Attachment) (opened : Bool) (mem : UserMemory) :
    Ran S att opened (start mem) :=
  ⟨⟨[], rfl, by simp⟩, Nat.zero_le _⟩

section Step

variable {S : Session} {att : Attachment} {opened : Bool} {s : Delayed}

theorem isSome_reader (mem : UserMemory) : (reader opened mem).isSome = opened := by
  cases opened <;> rfl

theorem Ran.step (h : Ran S att opened s) (mv : Move) :
    Ran S att opened (Delayed.step S att opened s mv) := by
  obtain ⟨⟨acts, hacts, hmr⟩, htaken⟩ := h
  cases mv with
  | write mem => exact ⟨⟨acts, hacts, hmr⟩, htaken⟩
  | probe a =>
      refine ⟨⟨acts ++ [a.at opened s.mem], ?_, ?_⟩, ?_⟩
      · rw [Machine.run_concat, ← hacts]
        rfl
      · intro b hb
        rcases List.mem_append.mp hb with hold | hnew
        · exact hmr b hold
        · rw [List.mem_singleton.mp hnew, Action.hit_at]
          exact isSome_reader s.mem
      · simp only [Delayed.step]
        rcases Machine.step_ring S att s.machine (a.at opened s.mem) with hsame | ⟨r, hr⟩
        · rw [hsame]
          exact htaken
        · rw [hr, List.length_append]
          omega
  | process =>
      simp only [Delayed.step]
      cases hr : s.machine.ring[s.done]? with
      | none => exact ⟨⟨acts, hacts, hmr⟩, htaken⟩
      | some r =>
          obtain ⟨hlt, -⟩ := List.getElem?_eq_some_iff.mp hr
          exact ⟨⟨acts, hacts, hmr⟩, hlt⟩

theorem Ran.isSome_mr (h : Ran S att opened s) {r : Record} (hr : r ∈ s.machine.ring) :
    r.env.mr.isSome = opened := by
  obtain ⟨⟨acts, hacts, hmr⟩, -⟩ := h
  rw [hacts] at hr
  revert r
  apply Machine.forall_ring
  · intro m tid off hit raw hmem
    exact hmr _ hmem
  · intro m tid hit call raw hmem
    exact hmr _ hmem

/-- While the returns find what was there when they happened, the delayed
loader learns what it would have learnt without delay. -/
theorem alike_step (hran : Ran S att opened s) (h : Alike s.tracker (s.onTime S)) (mv : Move)
    (hsteady : Steady S opened s mv) :
    Alike (Delayed.step S att opened s mv).tracker ((Delayed.step S att opened s mv).onTime S) := by
  cases mv with
  | write mem => exact h
  | probe a =>
      simp only [Delayed.step, onTime] at h ⊢
      rcases Machine.step_ring S att s.machine (a.at opened s.mem) with hsame | ⟨r, hr⟩
      · rw [hsame]
        exact h
      · rw [hr, List.take_append_of_le_length hran.taken]
        exact h
  | process =>
      simp only [Delayed.step]
      cases hr : s.machine.ring[s.done]? with
      | none => exact h
      | some r =>
          simp only [onTime] at h ⊢
          rw [Tracker.after_take S hr]
          apply h.handleEvent
          · rw [hran.isSome_mr (List.mem_of_getElem? hr)]
            exact isSome_reader s.mem
          · exact hsteady r hr

theorem alike_run (S : Session) (att : Attachment) (opened : Bool) (mem : UserMemory)
    (moves : List Move)
    (h : Runs.Along (Delayed.step S att opened) (Steady S opened) (start mem) moves) :
    Ran S att opened (run S att opened mem moves) ∧
      Alike (run S att opened mem moves).tracker ((run S att opened mem moves).onTime S) := by
  apply Runs.invariant (Delayed.step S att opened) (P := Steady S opened)
    (I := fun s => Ran S att opened s ∧ Alike s.tracker (s.onTime S))
  · rintro s mv ⟨hran, halike⟩ hsteady
    exact ⟨hran.step mv, alike_step hran halike mv hsteady⟩
  · exact ⟨ran_start S att opened mem, Alike.refl _⟩
  · exact h

end Step

end Delayed

end JniProbe
