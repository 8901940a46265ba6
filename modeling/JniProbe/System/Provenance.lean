import JniProbe.System.Machine

/-!
Where a stored frame comes from. The frames map carries no identity of the
call that wrote an entry, so pairing is stated about a second map that is
updated alongside it: for every key the serial number of the call whose entry
record stored the frame there.
-/

namespace JniProbe

open GoText

def Evt.key (e : Evt) : Key := (e.tid.toInt32, e.depth)

/-- The tracking state after the loader has processed these records. -/
def Tracker.after (S : Session) (recs : List Record) : Tracker :=
  recs.foldl (fun t r => (handleEvent S r.env t r.evt).1) Tracker.start

/-- An entry record that makes the loader store a frame. -/
def storesFrame (S : Session) (e : Evt) : Bool :=
  watched S.cfg e.tid && e.kind ≠ 1 &&
    (S.slotAt (e.ip - S.base)).any S.retSet && 0 ≤ e.depth

/-- A return record for which `handleReturn` consults and clears a frame. -/
def takesFrame (S : Session) (e : Evt) : Bool :=
  watched S.cfg e.tid && e.kind = 1 && 0 ≤ e.depth

def provenanceStep (S : Session) (src : Key → Option Nat) (r : Record) : Key → Option Nat :=
  if storesFrame S r.evt then Function.update src r.evt.key (some r.call)
  else if takesFrame S r.evt then Function.update src r.evt.key none
  else src

def provenance (S : Session) (recs : List Record) : Key → Option Nat :=
  recs.foldl (provenanceStep S) (fun _ => none)

/-- The call whose frame `handleReturn` finds for a return record. -/
def pairedWith (S : Session) (recs : List Record) (r : Record) : Option Nat :=
  if takesFrame S r.evt then provenance S recs r.evt.key else none

theorem Tracker.after_concat (S : Session) (recs : List Record) (r : Record) :
    Tracker.after S (recs ++ [r]) = (handleEvent S r.env (Tracker.after S recs) r.evt).1 := by
  simp [Tracker.after]

theorem provenance_concat (S : Session) (recs : List Record) (r : Record) :
    provenance S (recs ++ [r]) = provenanceStep S (provenance S recs) r := by
  simp [provenance]

/-! ### What handling an event does to the frames -/

/-- What the caches depend on in a frame. -/
def Frame.core (fr : Frame) : Nat × UInt64 × UInt64 × UInt64 := (fr.slot, fr.a1, fr.a2, fr.a3)

/-- A frame without its text, the only field that changes after it is stored. -/
def Frame.bare (fr : Frame) : Frame := { fr with call := [] }

theorem Frame.slot_of_bare {fr fr' : Frame} (h : fr.bare = fr'.bare) : fr.slot = fr'.slot :=
  (Frame.mk.inj h).1

theorem Frame.ts_of_bare {fr fr' : Frame} (h : fr.bare = fr'.bare) : fr.ts = fr'.ts :=
  (Frame.mk.inj h).2.1

section Frames

variable (S : Session) (env : Env) (t : Tracker) (e : Evt)

theorem setCall_bare (frames : Key → Option Frame) (key k : Key) (call : Bytes) :
    (setCall frames key call k).map Frame.bare = (frames k).map Frame.bare := by
  unfold setCall
  cases hfr : frames key with
  | none => rfl
  | some fr =>
      by_cases hk : k = key
      · subst hk
        simp [hfr, Frame.bare]
      · simp [Function.update_of_ne hk]

/-- A return record clears its key, whether or not a frame is there. -/
theorem handleReturn_frames : (handleReturn S env t e).1.frames =
    if e.depth < 0 then t.frames else Function.update t.frames e.key none := by
  unfold handleReturn
  split
  · rfl
  · dsimp only
    cases hfr : t.frames (e.tid.toInt32, e.depth) with
    | none => exact (Function.update_eq_self_iff.mpr hfr.symm).symm
    | some fr => rfl

theorem handleEntry_caches : (handleEntry S env t e).1.caches = t.caches := by
  unfold handleEntry
  split
  · rfl
  · dsimp only
    split
    · rfl
    · split
      · rfl
      · split
        · split <;> rfl
        · split <;> rfl

/-- The frames after an entry, up to their texts. -/
theorem handleEntry_bare (k : Key) : ((handleEntry S env t e).1.frames k).map Frame.bare =
    match S.slotAt (e.ip - S.base) with
    | none => (t.frames k).map Frame.bare
    | some slot =>
      if (S.retSet slot = true ∧ 0 ≤ e.depth) ∧ k = e.key then
        some (newFrame env e slot t.caches).bare
      else (t.frames k).map Frame.bare := by
  unfold handleEntry
  cases hslot : S.slotAt (e.ip - S.base) with
  | none => rfl
  | some slot =>
      dsimp only
      generalize hframes : (if S.retSet slot = true ∧ 0 ≤ e.depth then
        Function.update t.frames (e.tid.toInt32, e.depth)
          (some (newFrame env e slot t.caches)) else t.frames) = frames
      have hbare : (frames k).map Frame.bare =
          if (S.retSet slot = true ∧ 0 ≤ e.depth) ∧ k = e.key then
            some (newFrame env e slot t.caches).bare
          else (t.frames k).map Frame.bare := by
        subst hframes
        by_cases hcond : S.retSet slot = true ∧ 0 ≤ e.depth
        · by_cases hk : k = e.key
          · subst hk
            simp [hcond, Evt.key]
          · have hk' : k ≠ (e.tid.toInt32, e.depth) := hk
            simp [hcond, hk, Function.update_of_ne hk']
        · simp [hcond]
      rw [← hbare]
      split
      · rfl
      · split
        · rfl
        · split
          · split
            · exact setCall_bare _ _ _ _
            · exact setCall_bare _ _ _ _
          · split <;> rfl

/-- The cores of the frames after an entry. -/
theorem handleEntry_core (k : Key) : ((handleEntry S env t e).1.frames k).map Frame.core =
    match S.slotAt (e.ip - S.base) with
    | none => (t.frames k).map Frame.core
    | some slot =>
      if (S.retSet slot = true ∧ 0 ≤ e.depth) ∧ k = e.key then
        some (slot, e.a.get 1, e.a.get 2, e.a.get 3)
      else (t.frames k).map Frame.core := by
  have hcore (o : Option Frame) : o.map Frame.core = (o.map Frame.bare).map Frame.core := by
    rw [Option.map_map]
    rfl
  rw [hcore, handleEntry_bare, hcore (t.frames k)]
  split
  · rfl
  · split <;> rfl

/-! ### What a record does to the frames -/

theorem storesFrame_iff : storesFrame S e = true ↔ watched S.cfg e.tid = true ∧ e.kind ≠ 1 ∧
    0 ≤ e.depth ∧ ∃ slot, S.slotAt (e.ip - S.base) = some slot ∧ S.retSet slot = true := by
  simp only [storesFrame, Bool.and_eq_true, decide_eq_true_eq, Option.any_eq_true, and_assoc]
  tauto

theorem takesFrame_iff : takesFrame S e = true ↔
    watched S.cfg e.tid = true ∧ e.kind = 1 ∧ 0 ≤ e.depth := by
  simp [takesFrame, and_assoc]

/-- A record that stores a frame stores that of its entry, up to the text. -/
theorem handleEvent_stores (h : storesFrame S e = true) : ∃ slot,
    S.slotAt (e.ip - S.base) = some slot ∧ S.retSet slot = true ∧
      ∀ k, ((handleEvent S env t e).1.frames k).map Frame.bare =
        if k = e.key then some (newFrame env e slot t.caches).bare
        else (t.frames k).map Frame.bare := by
  obtain ⟨hw, hkind, hdepth, slot, hslot, hret⟩ := (storesFrame_iff S e).mp h
  refine ⟨slot, hslot, hret, ?_⟩
  intro k
  rw [handleEvent, hw, Bool.not_true, if_neg Bool.false_ne_true, if_neg hkind, handleEntry_bare,
    hslot]
  simp only [hret, hdepth, true_and]

/-- A record that takes a frame clears its key. -/
theorem handleEvent_takes (h : takesFrame S e = true) :
    (handleEvent S env t e).1.frames = Function.update t.frames e.key none := by
  obtain ⟨hw, hkind, hdepth⟩ := (takesFrame_iff S e).mp h
  rw [handleEvent, hw, Bool.not_true, if_neg Bool.false_ne_true, if_pos hkind,
    handleReturn_frames, if_neg (Int32.not_lt.mpr hdepth)]

/-- Any other record leaves the frames alone, up to their texts. -/
theorem handleEvent_keeps (hstores : ¬ storesFrame S e = true) (htakes : ¬ takesFrame S e = true)
    (k : Key) :
    ((handleEvent S env t e).1.frames k).map Frame.bare = (t.frames k).map Frame.bare := by
  rw [storesFrame_iff] at hstores
  rw [takesFrame_iff] at htakes
  unfold handleEvent
  by_cases hw : watched S.cfg e.tid = true
  · rw [hw, Bool.not_true, if_neg Bool.false_ne_true]
    by_cases hkind : e.kind = 1
    · have hneg : e.depth < 0 := by
        rw [← Int32.not_le]
        intro hdepth
        exact htakes ⟨hw, hkind, hdepth⟩
      rw [if_pos hkind, handleReturn_frames, if_pos hneg]
    · rw [if_neg hkind, handleEntry_bare]
      cases hslot : S.slotAt (e.ip - S.base) with
      | none => rfl
      | some slot =>
          apply if_neg
          rintro ⟨⟨hret, hdepth⟩, -⟩
          exact hstores ⟨hw, hkind, hdepth, slot, hslot, hret⟩
  · rw [Bool.not_eq_true] at hw
    rw [hw, Bool.not_false, if_pos rfl]

/-- The record writes the key: it stores a frame there or takes one from there. -/
def writesKey (k : Key) : Prop :=
  (storesFrame S e = true ∨ takesFrame S e = true) ∧ k = e.key

/-- Where a frame that is there after a record comes from, up to its text: the
record stored it, or it was there before and the record leaves its key alone. -/
theorem handleEvent_frames {k : Key} {fr : Frame}
    (hfr : (handleEvent S env t e).1.frames k = some fr) :
    (storesFrame S e = true ∧ k = e.key ∧ ∃ slot, S.retSet slot = true ∧
      fr.bare = (newFrame env e slot t.caches).bare) ∨
    (¬ writesKey S e k ∧ ∃ fr', t.frames k = some fr' ∧ fr'.bare = fr.bare) := by
  by_cases hstores : storesFrame S e = true
  · obtain ⟨slot, -, hret, hframes⟩ := handleEvent_stores S env t e hstores
    have hbare := hframes k
    rw [hfr, Option.map_some] at hbare
    by_cases hk : k = e.key
    · rw [if_pos hk] at hbare
      exact Or.inl ⟨hstores, hk, slot, hret, Option.some.inj hbare⟩
    · rw [if_neg hk] at hbare
      exact Or.inr ⟨fun h => hk h.2, Option.map_eq_some_iff.mp hbare.symm⟩
  · right
    by_cases htakes : takesFrame S e = true
    · rw [handleEvent_takes S env t e htakes] at hfr
      by_cases hk : k = e.key
      · rw [hk, Function.update_self] at hfr
        cases hfr
      · rw [Function.update_of_ne hk] at hfr
        exact ⟨fun h => hk h.2, fr, hfr, rfl⟩
    · have hbare := handleEvent_keeps S env t e hstores htakes k
      rw [hfr, Option.map_some] at hbare
      exact ⟨fun h => h.1.elim hstores htakes, Option.map_eq_some_iff.mp hbare.symm⟩

end Frames

/-- The provenance of a key that the record leaves alone. -/
theorem provenanceStep_of_not_writes {S : Session} {src : Key → Option Nat} {r : Record} {k : Key}
    (h : ¬ writesKey S r.evt k) : provenanceStep S src r k = src k := by
  unfold provenanceStep
  split
  · rename_i hstores
    rw [Function.update_of_ne (fun hk => h ⟨Or.inl hstores, hk⟩)]
  · split
    · rename_i htakes
      rw [Function.update_of_ne (fun hk => h ⟨Or.inr htakes, hk⟩)]
    · rfl

/-- The frames map and its provenance have the same keys after any stream. -/
theorem frames_isSome (S : Session) (recs : List Record) (k : Key) :
    ((Tracker.after S recs).frames k).isSome = (provenance S recs k).isSome := by
  induction recs using List.reverseRecOn with
  | nil => rfl
  | append_singleton recs r ih =>
      rw [Tracker.after_concat, provenance_concat]
      unfold provenanceStep
      by_cases hstores : storesFrame S r.evt = true
      · obtain ⟨slot, -, -, hframes⟩ :=
          handleEvent_stores S r.env (Tracker.after S recs) r.evt hstores
        rw [if_pos hstores, ← Option.isSome_map (f := Frame.bare), hframes]
        by_cases hk : k = r.evt.key
        · rw [if_pos hk, hk, Function.update_self]
          rfl
        · rw [if_neg hk, Function.update_of_ne hk, Option.isSome_map]
          exact ih
      · rw [if_neg hstores]
        by_cases htakes : takesFrame S r.evt = true
        · rw [handleEvent_takes S r.env _ r.evt htakes, if_pos htakes]
          by_cases hk : k = r.evt.key
          · rw [hk, Function.update_self, Function.update_self]
            rfl
          · rw [Function.update_of_ne hk, Function.update_of_ne hk]
            exact ih
        · rw [if_neg htakes, ← Option.isSome_map (f := Frame.bare),
            handleEvent_keeps S r.env _ r.evt hstores htakes, Option.isSome_map]
          exact ih

end JniProbe
