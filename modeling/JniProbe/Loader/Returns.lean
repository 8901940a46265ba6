import JniProbe.Loader.Learning
import JniProbe.System.Provenance

/-!
What the caches of a session are made of. A return record teaches if a frame is
found for it; the caches after any stream of records are what its processed
returns taught, one after the other, and each id entry is the work of one of
them.
-/

namespace JniProbe

open GoText

/-- A return that found its frame. -/
structure Return where
  mr : Option UserMemory
  fr : Frame
  rc : UInt64

def learned (rs : List Return) : Caches :=
  rs.foldl (fun cs r => learn r.mr r.fr r.rc cs) newCaches

/-! ### The returns of a stream -/

/-- The return that a record is, if a frame is stored for it. -/
def returned (S : Session) (t : Tracker) (r : Record) : Option Return :=
  if takesFrame S r.evt then
    (t.frames r.evt.key).map (fun fr => ⟨r.env.mr, fr, r.evt.rc⟩)
  else none

def returnedFrom (S : Session) : Tracker → List Record → List Return
  | _, [] => []
  | t, r :: rest =>
    (returned S t r).toList ++ returnedFrom S (handleEvent S r.env t r.evt).1 rest

theorem handleEvent_caches (S : Session) (t : Tracker) (r : Record) :
    (handleEvent S r.env t r.evt).1.caches =
      (returned S t r).toList.foldl (fun cs r => learn r.mr r.fr r.rc cs) t.caches := by
  unfold handleEvent returned takesFrame
  cases watched S.cfg r.evt.tid with
  | false => rfl
  | true =>
      simp only [Bool.not_true, Bool.false_eq_true, if_false, Bool.true_and, Bool.and_eq_true,
        decide_eq_true_eq]
      by_cases hkind : r.evt.kind = 1
      · rw [if_pos hkind]
        unfold handleReturn
        by_cases hdepth : r.evt.depth < 0
        · rw [if_pos hdepth, if_neg (fun h => Int32.not_le.mpr hdepth h.2)]
          rfl
        · rw [if_neg hdepth, if_pos ⟨hkind, Int32.not_lt.mp hdepth⟩]
          dsimp only [Evt.key]
          cases t.frames (r.evt.tid.toInt32, r.evt.depth) with
          | none => rfl
          | some fr => rfl
      · rw [if_neg hkind, if_neg (fun h => hkind h.1), handleEntry_caches]
        rfl

theorem foldl_caches (S : Session) (t : Tracker) (recs : List Record) :
    (recs.foldl (fun t r => (handleEvent S r.env t r.evt).1) t).caches =
      (returnedFrom S t recs).foldl (fun cs r => learn r.mr r.fr r.rc cs) t.caches := by
  induction recs generalizing t with
  | nil => rfl
  | cons r rest ih =>
      rw [List.foldl_cons, ih, returnedFrom, List.foldl_append, handleEvent_caches]

/-- The caches of any stream are what its processed returns taught. -/
theorem caches_after (S : Session) (recs : List Record) :
    (Tracker.after S recs).caches = learned (returnedFrom S Tracker.start recs) :=
  foldl_caches S Tracker.start recs

/-! ### The entries of an id -/

namespace Return

/-- The name and signature that this return stores. -/
def nameWrite (r : Return) : Option (UInt64 × Bytes) :=
  if namesId r.mr r.fr r.rc then some (r.rc, cstr r.mr r.fr.a2 ++ cstr r.mr r.fr.a3) else none

/-- The class reference that this return stores. -/
def classRefWrite (r : Return) : Option (UInt64 × UInt64) := ownerWrite r.mr r.fr r.rc

end Return

/-- The returns that the entries of an id stem from. -/
def lastNamed (rs : List Return) : UInt64 → Option Nat := LatestWrite.latestAt Return.nameWrite rs

def lastClassed (rs : List Return) : UInt64 → Option Nat :=
  LatestWrite.latestAt Return.classRefWrite rs

theorem learned_idName (rs : List Return) :
    (learned rs).idName = LatestWrite.latest Return.nameWrite rs := by
  apply LatestWrite.foldl_eq_latest Return.nameWrite _ Caches.idName _ rfl
  intro cs r
  rw [learn_idName, Return.nameWrite]
  split
  · rfl
  · rfl

theorem learned_idClass (rs : List Return) :
    (learned rs).idClass = LatestWrite.latest Return.classRefWrite rs := by
  apply LatestWrite.foldl_eq_latest Return.classRefWrite _ Caches.idClass _ rfl
  intro cs r
  exact learn_idClass r.mr r.fr r.rc cs

/-- The return that named an id last: its strings are those stored. -/
theorem lastNamed_eq_some {rs : List Return} {m : UInt64} {n : Nat} (h : lastNamed rs m = some n) :
    ∃ r, rs[n]? = some r ∧ r.rc = m ∧ namesId r.mr r.fr r.rc = true ∧
      (learned rs).idName m = some (cstr r.mr r.fr.a2 ++ cstr r.mr r.fr.a3) := by
  obtain ⟨r, v, hr, hwrite, hvalue⟩ := LatestWrite.latestAt_eq_some h
  unfold Return.nameWrite at hwrite
  split at hwrite
  · rename_i hnames
    obtain ⟨rfl, rfl⟩ := Prod.mk.inj (Option.some.inj hwrite)
    exact ⟨r, hr, rfl, hnames, by rw [learned_idName, hvalue]⟩
  · cases hwrite

/-- The return that gave an id its class last: its class argument is stored. -/
theorem lastClassed_eq_some {rs : List Return} {m : UInt64} {n : Nat}
    (h : lastClassed rs m = some n) :
    ∃ r, rs[n]? = some r ∧ r.rc = m ∧ (learned rs).idClass m = some r.fr.a1 := by
  obtain ⟨r, v, hr, hwrite, hvalue⟩ := LatestWrite.latestAt_eq_some h
  unfold Return.classRefWrite ownerWrite at hwrite
  split at hwrite
  · obtain ⟨rfl, rfl⟩ := Prod.mk.inj (Option.some.inj hwrite)
    exact ⟨r, hr, rfl, by rw [learned_idClass, hvalue]⟩
  · cases hwrite

theorem lastNamed_isSome (rs : List Return) (m : UInt64) :
    (lastNamed rs m).isSome = ((learned rs).idName m).isSome := by
  rw [learned_idName]
  exact LatestWrite.latestAt_isSome

end JniProbe
