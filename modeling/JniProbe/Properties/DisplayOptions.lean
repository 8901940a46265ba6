import JniProbe.Properties.MethodNames
import JniProbe.System.SameTarget

/-!
Display options do not change what is learned. Sessions that differ in what
they print track different slots, so their records carry different depths; the
caches agree all the same, as long as both pair every return with its own
entry.
-/

namespace JniProbe

open GoText

theorem PairsOwn.take {S : Session} {att : Attachment} {acts : List Action}
    (h : PairsOwn S (Machine.run S att acts).ring) (n : Nat) :
    PairsOwn S (Machine.run S att (acts.take n)).ring := by
  obtain ⟨added, hadded⟩ := Machine.ring_grows S att (acts.take_prefix n)
  rw [← hadded] at h
  exact h.of_append

/-- Two sessions that know the same functions, with any options, filters and
visiting orders, process the records of one target run, nothing is lost, and
both pair every return with its own entry. After every prefix of the run their
caches are equal. -/
theorem display_options_irrelevant {S S' : Session} (hslots : ∀ off, S.slotAt off = S'.slotAt off)
    (hall : S.cfg.tid = 0) (hall' : S'.cfg.tid = 0) {acts acts' : List Action}
    (hsame : List.Forall₂ Action.SameTarget acts acts')
    (hpaired : PairsOwn S (Machine.run S .all acts).ring)
    (hpaired' : PairsOwn S' (Machine.run S' .all acts').ring) (n : Nat) :
    (Tracker.after S (Machine.run S .all (acts.take n)).ring).caches =
      (Tracker.after S' (Machine.run S' .all (acts'.take n)).ring).caches := by
  rw [(hpaired.take n).caches_taught, (hpaired'.take n).caches_taught]
  exact taught_sameTarget hslots hall hall' (List.forall₂_take n hsame)

/-! ### Pairing is needed -/

namespace Scenario

/-- The same session with `--mode class`. -/
def classOnly (S : Session) : Session :=
  { S with filters := { filters with modes := [str "class"] } }

theorem sameTarget_lookupRun (off callee : UInt64) (sig : Bytes) :
    List.Forall₂ Action.SameTarget (lookupRun off callee sig) (lookupRun off callee sig) := by
  have hhit : (lookupHit sig).SameTarget (lookupHit sig) := ⟨rfl, rfl, rfl, rfl⟩
  exact .cons ⟨rfl, rfl, hhit⟩ (.cons ⟨rfl, hhit⟩ (.cons ⟨rfl, rfl, hhit⟩ .nil))

/-- A monitored lookup teaches the class of its id. -/
theorem lookupRun_idClass (S : Session) (off callee : UInt64) (sig : Bytes) (hall : S.cfg.tid = 0)
    (hpaired : PairsOwn S (Machine.run S .all (lookupRun off callee sig)).ring)
    (hslot : S.slotAt off = some 33) :
    (Tracker.after S (Machine.run S .all (lookupRun off callee sig)).ring).caches.idClass 0x1000 =
      some 0x3000 := by
  have hlessons : (Journal.run S .all (lookupRun off callee sig)).lessons =
      [] ++ (Journal.lesson S .all 1 off (lookupHit sig) (lookupHit sig)).toList := rfl
  have hwatch : alwaysWatch (slotName 33) = true := by decide
  rw [hpaired.caches_taught, hlessons, taught_lesson (watched_of_all hall _) _ _ _ _ rfl, hslot]
  simp only [teachCall, hwatch, if_true, teach]
  rw [learn_idClass]
  rfl

theorem crowd_le : 8193 ≤ 2 ^ 64 := by decide

/-- `GetVersion` at as many offsets as `hasret` holds, `GetMethodID` behind them. -/
def versionCrowd : Session :=
  session (offsetsOf (fun i => if i < 8192 then 4 else 33) 8193 crowd_le)

theorem monitored_versionCrowd (callee : UInt64) (sig : Bytes) :
    Monitored (classOnly versionCrowd) (lookupRun 8192 callee sig) := by
  apply Monitored.of_short
  · rw [retOffsets_of (classOnly versionCrowd) (fun i => if i < 8192 then 4 else 33) 8193
      (by decide) rfl, List.length_map]
    have hsmall : ((List.range 8193).filter (fun i =>
        (classOnly versionCrowd).retSet (if i < 8192 then 4 else 33))).length <
        (List.range 8193).length := by
      rw [List.length_filter_lt_length_iff_exists]
      refine ⟨0, by simp, ?_⟩
      decide
    rw [List.length_range] at hsmall
    omega
  · simp [lookupRun]
  · exact (lossless_lookupRun _ _ _).reserved

end Scenario

open Scenario in
/-- With 8193 tracked offsets `hasret` has no room for the last one: a lookup
there teaches nothing while all functions are shown, and its class while only
those of the `class` mode are. -/
theorem display_options_matter_when_crowded :
    List.Forall₂ Action.SameTarget (lookupRun 8192 8192 (str "()V"))
        (lookupRun 8192 8192 (str "()V")) ∧
      (∀ off, versionCrowd.slotAt off = (classOnly versionCrowd).slotAt off) ∧
      versionCrowd.cfg = (classOnly versionCrowd).cfg ∧ versionCrowd.cfg.tid = 0 ∧
      (Tracker.after versionCrowd (Machine.run versionCrowd .all
        (lookupRun 8192 8192 (str "()V"))).ring).caches.idClass 0x1000 = none ∧
      (Tracker.after (classOnly versionCrowd) (Machine.run (classOnly versionCrowd) .all
        (lookupRun 8192 8192 (str "()V"))).ring).caches.idClass 0x1000 = some 0x3000 := by
  have hslot : versionCrowd.slotAt 8192 = some 33 :=
    slotAt_offsetsOf (fun i => if i < 8192 then 4 else 33) 8193 crowd_le
      (show 8192 < 8193 by omega)
  refine ⟨sameTarget_lookupRun _ _ _, fun _ => rfl, rfl, rfl, ?_, ?_⟩
  · have hwatch : ∀ i < 8193, versionCrowd.retSet (if i < 8192 then 4 else 33) = true := by
      intro i _
      split
      · decide
      · decide
    obtain ⟨hfull, htracked⟩ := hasret_offsetsOf (fun i => if i < 8192 then 4 else 33) 8193
      (by decide) (by omega) hwatch (show 8192 < 8193 by omega)
    obtain ⟨e, r, c, hring, -, -, -, -, hkind, hcaches⟩ :=
      lookupRun_overflow versionCrowd 8192 8192 (str "()V") rfl htracked
        (by rw [Bool.eq_false_iff]; exact fun hhas => absurd (hfull.mp hhas) (by omega))
        (versionCrowd.mem_offsets_of_tracked htracked)
    have hsplit : [e, r, c] = [e, r] ++ [c] := rfl
    rw [hring, hsplit, Tracker.caches_of_entry _ hkind, hcaches]
    rfl
  · exact lookupRun_idClass _ _ _ _ rfl (monitored_versionCrowd _ _).pairsOwn hslot

open Scenario in
/-- A lookup and the entry of a call, shown and not shown. -/
theorem display_options_irrelevant_lookup :
    (Tracker.after lookupSession (Machine.run lookupSession .all
        ((lookupRun 0 2 (str "()V")).take 2)).ring).caches =
      (Tracker.after (classOnly lookupSession) (Machine.run (classOnly lookupSession) .all
        ((lookupRun 0 2 (str "()V")).take 2)).ring).caches := by
  have hmonitored (S : Session) (hoffsets : S.retOffsets.length ≤ 8192) :
      Monitored S (lookupRun 0 2 (str "()V")) :=
    Monitored.of_short hoffsets (by simp [lookupRun]) (lossless_lookupRun _ _ _).reserved
  have hslots : ∀ off, lookupSession.slotAt off = (classOnly lookupSession).slotAt off :=
    fun _ => rfl
  exact display_options_irrelevant hslots rfl rfl (sameTarget_lookupRun 0 2 (str "()V"))
    (hmonitored lookupSession (by decide +kernel)).pairsOwn
    (hmonitored (classOnly lookupSession) (by decide +kernel)).pairsOwn 2

end JniProbe
