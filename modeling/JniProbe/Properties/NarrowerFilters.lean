import JniProbe.Properties.CommandRaces
import JniProbe.System.Answers
import JniProbe.System.TwoSessions

/-!
Once the probes are attached, the filters hide lines and do nothing else. They
may change from record to record, on any run, with whatever attached and lost:
where they are at every record narrower than other ones, the session learns the
same as under those and prints some of their lines, letter by letter and in
their order.
-/

namespace JniProbe

open GoText

/-- Whatever `f` accepts, `g` accepts. -/
structure Filters.Narrower (f g : Filters) : Prop where
  slot : ∀ slot, f.matchSlot slot = true → g.matchSlot slot = true
  line : ∀ cls method line callerMod, f.matchLine cls method line callerMod = true →
    g.matchLine cls method line callerMod = true

/-- `S` with another `--max-depth`. -/
def Session.withMaxDepth (S : Session) (n : Int64) : Session :=
  { S with cfg := { S.cfg with maxDepth := n } }

/-- What is too deep for `n` is too deep for `S`. -/
def Session.Shallower (S : Session) (n : Int64) : Prop :=
  ∀ depth, tooDeep (S.withMaxDepth n).cfg depth = true → tooDeep S.cfg depth = true

/-- The records of a stream, `F i` in force while the `i`-th is handled. -/
def underFilters (F : Nat → Filters) (recs : List Record) : List Record :=
  recs.mapIdx (fun i r => { r with env := r.env.withFilters (F i) })

/-! ### What the kernel submits -/

/-- An entry record at a depth is that of a tracked function. -/
def EntriesTracked (S : Session) (recs : List Record) : Prop :=
  ∀ r ∈ recs, r.evt.kind ≠ 1 → 0 ≤ r.evt.depth →
    ∃ slot, S.slotAt (r.evt.ip - S.base) = some slot ∧ S.retSet slot = true

theorem Machine.entriesTracked (S : Session) (att : Attachment) (acts : List Action) :
    EntriesTracked S (run S att acts).ring := by
  apply forall_ring
  · intro m tid off hit raw _ _ hdepth
    rw [entryEvt_depth_at] at hdepth
    split at hdepth
    · rename_i hhas
      rw [entryEvt_ip, entryCtx_offset]
      exact (S.mem_retOffsets off).mp (S.mem_retOffsets_of_hasret hhas)
    · exact absurd hdepth (by decide)
  · intro m tid hit call raw _ hkind
    exact absurd rfl hkind

/-! ### Trackers under filters -/

/-- The frames of the narrower session are those of the other, some of them
without their text; none is at a negative depth. -/
structure Tracker.Behind (t t' : Tracker) : Prop where
  caches : t.caches = t'.caches
  frames : ∀ k, t.frames k = t'.frames k ∨ t.frames k = (t'.frames k).map Frame.bare
  below : ∀ k : Key, k.2 < 0 → t'.frames k = none

theorem behind_start : Tracker.start.Behind Tracker.start where
  caches := rfl
  frames _ := Or.inl rfl
  below _ _ := rfl

theorem Tracker.Behind.update {t t' : Tracker} (h : t.Behind t') (k : Key) (v v' : Option Frame)
    (hv : v = v' ∨ v = v'.map Frame.bare) (hk : k.2 < 0 → v' = none) {cs cs' : Caches}
    (hcaches : cs = cs') :
    Tracker.Behind ⟨Function.update t.frames k v, cs⟩ ⟨Function.update t'.frames k v', cs'⟩ where
  caches := hcaches
  frames k' := by
    by_cases heq : k' = k
    · subst heq
      simp only [Function.update_self]
      exact hv
    · simp only [Function.update_of_ne heq]
      exact h.frames k'
  below k' hneg := by
    by_cases heq : k' = k
    · subst heq
      simp only [Function.update_self]
      exact hk hneg
    · simp only [Function.update_of_ne heq]
      exact h.below k' hneg

/-! ### What an entry does -/

/-- What it leaves at its key: a frame if it has a depth. -/
def entryFrame (env : Env) (e : Evt) (slot : Nat) (cs : Caches) : Option Frame :=
  if 0 ≤ e.depth then some (newFrame env e slot cs) else none

/-- The entry gets past `matchSlot` and `maxDepth`. -/
def Wanted (S : Session) (env : Env) (e : Evt) (slot : Nat) : Prop :=
  env.filters.matchSlot slot = true ∧ ¬ tooDeep S.cfg e.depth = true

/-- The slot of an entry, tracked if the entry has a depth, and no frame at its
key if it has none. -/
structure EntryAt (S : Session) (t : Tracker) (e : Evt) (slot : Nat) : Prop where
  found : S.slotAt (e.ip - S.base) = some slot
  tracked : 0 ≤ e.depth → S.retSet slot = true
  below : e.depth < 0 → t.frames (e.tid.toInt32, e.depth) = none

theorem setCall_stored (frames : Key → Option Frame) (key : Key) (v : Option Frame) (call : Bytes) :
    setCall (Function.update frames key v) key call =
      Function.update frames key (v.map (fun fr => { fr with call := call })) := by
  cases v with
  | none => exact setCall_of_none _ _ _ (Function.update_self _ _ _)
  | some fr => exact setCall_update _ _ _ _

section Entry

variable {S : Session} {env : Env} {t : Tracker} {e : Evt} {slot : Nat}

theorem EntryAt.frames (h : EntryAt S t e slot) :
    (if S.retSet slot = true ∧ 0 ≤ e.depth then
        Function.update t.frames (e.tid.toInt32, e.depth) (some (newFrame env e slot t.caches))
      else t.frames) =
      Function.update t.frames (e.tid.toInt32, e.depth) (entryFrame env e slot t.caches) := by
  unfold entryFrame
  by_cases hdepth : 0 ≤ e.depth
  · rw [if_pos ⟨h.tracked hdepth, hdepth⟩, if_pos hdepth]
  · rw [if_neg (fun hboth => hdepth hboth.2), if_neg hdepth, eq_comm, Function.update_eq_self_iff]
    exact (h.below (Int32.not_le.mp hdepth)).symm

theorem EntryAt.unwanted (h : EntryAt S t e slot) (hwanted : ¬ Wanted S env e slot) :
    handleEntry S env t e = (⟨Function.update t.frames (e.tid.toInt32, e.depth)
      (entryFrame env e slot t.caches), t.caches⟩, none) := by
  unfold handleEntry
  rw [h.found]
  dsimp only
  rw [h.frames]
  split
  · rfl
  · rename_i hslot
    split
    · rfl
    · rename_i hdeep
      rw [Bool.not_eq_true', Bool.not_eq_false] at hslot
      exact absurd ⟨hslot, hdeep⟩ hwanted

/-- A call completes its frame. -/
theorem EntryAt.call (h : EntryAt S t e slot) (hwanted : Wanted S env e slot) {i : Fin nargs}
    (hcall : isCallMethod (slotName slot) = some i) : handleEntry S env t e =
      if ((describeCall e (slotName slot) t.caches env.mr).2 || S.cfg.verbose) &&
          env.filters.matchLine
            (splitClassMethod (describeCall e (slotName slot) t.caches env.mr).1).1
            (splitClassMethod (describeCall e (slotName slot) t.caches env.mr).1).2
            (describeCall e (slotName slot) t.caches env.mr).1 (env.moduleOf e.caller) then
        (⟨Function.update t.frames (e.tid.toInt32, e.depth)
            ((entryFrame env e slot t.caches).map (fun fr =>
              { fr with call := (describeCall e (slotName slot) t.caches env.mr).1 })), t.caches⟩,
          some (indentStr e.depth ++ str "-> " ++
            (describeCall e (slotName slot) t.caches env.mr).1 ++ verboseTag S env e))
      else
        (⟨Function.update t.frames (e.tid.toInt32, e.depth)
            ((entryFrame env e slot t.caches).map (fun fr =>
              { fr with call := (describeCall e (slotName slot) t.caches env.mr).1 })), t.caches⟩,
          none) := by
  unfold handleEntry
  rw [h.found]
  dsimp only
  rw [h.frames, hwanted.1, Bool.not_true, if_neg Bool.false_ne_true, if_neg hwanted.2, hcall,
    ← setCall_stored]

theorem EntryAt.generic (h : EntryAt S t e slot) (hwanted : Wanted S env e slot)
    (hcall : isCallMethod (slotName slot) = none) : handleEntry S env t e =
      if env.filters.matchLine [] (slotName slot) (genericLine e slot t.caches env.mr)
          (env.moduleOf e.caller) then
        (⟨Function.update t.frames (e.tid.toInt32, e.depth) (entryFrame env e slot t.caches),
            t.caches⟩,
          some (indentStr e.depth ++ str "-> " ++ genericLine e slot t.caches env.mr))
      else
        (⟨Function.update t.frames (e.tid.toInt32, e.depth) (entryFrame env e slot t.caches),
            t.caches⟩, none) := by
  unfold handleEntry
  rw [h.found]
  dsimp only
  rw [h.frames, hwanted.1, Bool.not_true, if_neg Bool.false_ne_true, if_neg hwanted.2, hcall]

end Entry

section Step

variable {S : Session} {env : Env} {e : Evt} {t t' : Tracker} {f g : Filters} {n : Int64}

theorem returnLine_bare (fr : Frame) (cs : Caches) :
    returnLine S (env.withFilters f) e fr.bare cs = none := by
  simp [returnLine, Frame.bare]

theorem returnLine_narrower (hfg : f.Narrower g) (hn : S.Shallower n) (fr : Frame) (cs : Caches) :
    returnLine S (env.withFilters f) e fr cs = none ∨
      returnLine S (env.withFilters f) e fr cs =
        returnLine (S.withMaxDepth n) (env.withFilters g) e fr cs := by
  by_cases hshown :
      ((env.withFilters f).filters.matchSlot fr.slot && decide (fr.call ≠ [])) = true
  · have hshown' :
        ((env.withFilters g).filters.matchSlot fr.slot && decide (fr.call ≠ [])) = true := by
      rw [Bool.and_eq_true] at hshown ⊢
      exact ⟨hfg.slot _ hshown.1, hshown.2⟩
    rw [returnLine, returnLine, if_pos hshown, if_pos hshown']
    split
    · exact Or.inl rfl
    · rename_i hdeep
      rw [if_neg (fun h => hdeep (hn _ h))]
      dsimp only
      split
      · rename_i hline
        exact Or.inr (if_pos (hfg.line _ _ _ _ hline)).symm
      · exact Or.inl rfl
  · rw [returnLine, if_neg hshown]
    exact Or.inl rfl

theorem handleReturn_behind (h : t.Behind t') (hfg : f.Narrower g) (hn : S.Shallower n) :
    (handleReturn S (env.withFilters f) t e).1.Behind
        (handleReturn (S.withMaxDepth n) (env.withFilters g) t' e).1 ∧
      ((handleReturn S (env.withFilters f) t e).2 = none ∨
        (handleReturn S (env.withFilters f) t e).2 =
          (handleReturn (S.withMaxDepth n) (env.withFilters g) t' e).2) := by
  unfold handleReturn
  split
  · exact ⟨h, Or.inl rfl⟩
  · dsimp only
    have hframe := h.frames (e.tid.toInt32, e.depth)
    cases hfr' : t'.frames (e.tid.toInt32, e.depth) with
    | none =>
        rw [hfr', Option.map_none, or_self] at hframe
        rw [hframe]
        exact ⟨h, Or.inl rfl⟩
    | some fr =>
        rw [hfr', Option.map_some] at hframe
        rcases hframe with hframe | hframe
        · rw [hframe]
          dsimp only
          refine ⟨h.update _ _ _ (Or.inl rfl) (fun _ => rfl) ?_, ?_⟩
          · rw [h.caches]
            rfl
          · rw [h.caches]
            exact returnLine_narrower hfg hn fr _
        · rw [hframe]
          dsimp only
          refine ⟨h.update _ _ _ (Or.inl rfl) (fun _ => rfl) ?_, Or.inl (returnLine_bare fr _)⟩
          rw [h.caches]
          rfl

/-- A line that is printed under a condition, and under a weaker one. -/
theorem behind_emits (h : t.Behind t') {c c' : Bool} (himp : c = true → c' = true) (line : Bytes) :
    (if c = true then (t, some line) else (t, none)).1.Behind
        (if c' = true then (t', some line) else (t', none)).1 ∧
      ((if c = true then (t, some line) else (t, none)).2 = none ∨
        (if c = true then (t, some line) else (t, none)).2 =
          (if c' = true then (t', some line) else (t', none)).2) := by
  cases hc : c with
  | true =>
      rw [himp hc]
      exact ⟨h, Or.inr rfl⟩
  | false =>
      refine ⟨?_, Or.inl rfl⟩
      cases c' <;> exact h

/-- Nothing is printed here, perhaps there. -/
theorem behind_hides (h : t.Behind t') (c : Bool) (line : Bytes) :
    t.Behind (if c = true then (t', some line) else (t', none)).1 := by
  cases c <;> exact h

/-- The slot that both sessions see. -/
theorem Tracker.Behind.entryAt (h : t.Behind t') {slot : Nat}
    (hslot : S.slotAt (e.ip - S.base) = some slot) (htracked : 0 ≤ e.depth → S.retSet slot = true) :
    EntryAt S t e slot ∧ EntryAt (S.withMaxDepth n) t' e slot := by
  have hbelow (hdepth : e.depth < 0) : t'.frames (e.tid.toInt32, e.depth) = none :=
    h.below _ hdepth
  refine ⟨⟨hslot, htracked, ?_⟩, ⟨hslot, htracked, hbelow⟩⟩
  intro hdepth
  have hframe := h.frames (e.tid.toInt32, e.depth)
  rwa [hbelow hdepth, Option.map_none, or_self] at hframe

theorem handleEntry_behind (h : t.Behind t') (hfg : f.Narrower g) (hn : S.Shallower n)
    (htracked : 0 ≤ e.depth → ∃ slot, S.slotAt (e.ip - S.base) = some slot ∧
      S.retSet slot = true) :
    (handleEntry S (env.withFilters f) t e).1.Behind
        (handleEntry (S.withMaxDepth n) (env.withFilters g) t' e).1 ∧
      ((handleEntry S (env.withFilters f) t e).2 = none ∨
        (handleEntry S (env.withFilters f) t e).2 =
          (handleEntry (S.withMaxDepth n) (env.withFilters g) t' e).2) := by
  cases hslot : S.slotAt (e.ip - S.base) with
  | none =>
      have hslot' : (S.withMaxDepth n).slotAt (e.ip - (S.withMaxDepth n).base) = none := hslot
      rw [handleEntry, handleEntry, hslot, hslot']
      exact ⟨h, Or.inl rfl⟩
  | some slot =>
      obtain ⟨hat, hat'⟩ := h.entryAt (n := n) hslot (fun hdepth => by
        obtain ⟨slot', hslot', hret⟩ := htracked hdepth
        rw [hslot, Option.some_inj] at hslot'
        rw [hslot']
        exact hret)
      have hwanted (hw : Wanted S (env.withFilters f) e slot) :
          Wanted (S.withMaxDepth n) (env.withFilters g) e slot :=
        ⟨hfg.slot slot hw.1, fun hdeep => hw.2 (hn _ hdeep)⟩
      have hneg (hdepth : e.depth < 0) :
          entryFrame (env.withFilters g) e slot t'.caches = none := by
        rw [entryFrame, if_neg (Int32.not_le.mpr hdepth)]
      have hplain := h.update (e.tid.toInt32, e.depth) _ _ (Or.inl rfl) hneg
        (rfl : t'.caches = t'.caches)
      have hcalled (call : Bytes) (w : Option Frame)
          (hw : w = (entryFrame (env.withFilters g) e slot t'.caches).map
              (fun fr => { fr with call := call }) ∨
            w = ((entryFrame (env.withFilters g) e slot t'.caches).map
              (fun fr => { fr with call := call })).map Frame.bare) :=
        h.update (e.tid.toInt32, e.depth) w _ hw
          (fun hdepth => by rw [hneg hdepth, Option.map_none]) (rfl : t'.caches = t'.caches)
      by_cases hw : Wanted S (env.withFilters f) e slot
      · cases hcall : isCallMethod (slotName slot) with
        | some i =>
            rw [hat.call hw hcall, hat'.call (hwanted hw) hcall, h.caches]
            apply behind_emits (hcalled _ _ (Or.inl rfl))
            intro hline
            rw [Bool.and_eq_true] at hline ⊢
            exact ⟨hline.1, hfg.line _ _ _ _ hline.2⟩
        | none =>
            rw [hat.generic hw hcall, hat'.generic (hwanted hw) hcall, h.caches]
            exact behind_emits hplain (hfg.line _ _ _ _) _
      · rw [hat.unwanted hw, h.caches]
        refine ⟨?_, Or.inl rfl⟩
        by_cases hw' : Wanted (S.withMaxDepth n) (env.withFilters g) e slot
        · cases hcall : isCallMethod (slotName slot) with
          | some i =>
              have hset : Session.callSet slot = true := by
                rw [Session.callSet, hcall]
                rfl
              rw [hat'.call hw' hcall]
              apply behind_hides
              apply hcalled
              right
              unfold entryFrame
              split
              · simp [newFrame, Frame.bare, hset, Env.withFilters]
              · rfl
          | none =>
              rw [hat'.generic hw' hcall]
              exact behind_hides hplain _ _
        · rw [hat'.unwanted hw']
          exact hplain

theorem handleEvent_behind (env : Env) (h : t.Behind t') (hfg : f.Narrower g) (hn : S.Shallower n)
    (htracked : e.kind ≠ 1 → 0 ≤ e.depth → ∃ slot, S.slotAt (e.ip - S.base) = some slot ∧
      S.retSet slot = true) :
    (handleEvent S (env.withFilters f) t e).1.Behind
        (handleEvent (S.withMaxDepth n) (env.withFilters g) t' e).1 ∧
      ((handleEvent S (env.withFilters f) t e).2 = none ∨
        (handleEvent S (env.withFilters f) t e).2 =
          (handleEvent (S.withMaxDepth n) (env.withFilters g) t' e).2) := by
  have hwatched : watched (S.withMaxDepth n).cfg e.tid = watched S.cfg e.tid := rfl
  rw [handleEvent, handleEvent, hwatched]
  by_cases hw : (!watched S.cfg e.tid) = true
  · rw [if_pos hw, if_pos hw]
    exact ⟨h, Or.inl rfl⟩
  · rw [if_neg hw, if_neg hw]
    by_cases hkind : e.kind = 1
    · rw [if_pos hkind, if_pos hkind]
      exact handleReturn_behind h hfg hn
    · rw [if_neg hkind, if_neg hkind]
      exact handleEntry_behind h hfg hn (htracked hkind)

end Step

/-! ### Whole streams -/

theorem behind_stream {S : Session} {n : Int64} (hn : S.Shallower n) {F G : Nat → Filters}
    (hnarrower : ∀ i, (F i).Narrower (G i)) {recs : List Record}
    (htracked : EntriesTracked S recs) {t t' : Tracker} (h : t.Behind t') :
    (linesFrom S t (underFilters F recs)).Sublist
        (linesFrom (S.withMaxDepth n) t' (underFilters G recs)) ∧
      ((underFilters F recs).foldl (fun t r => (handleEvent S r.env t r.evt).1) t).Behind
        ((underFilters G recs).foldl
          (fun t r => (handleEvent (S.withMaxDepth n) r.env t r.evt).1) t') := by
  induction recs generalizing F G t t' with
  | nil => exact ⟨List.Sublist.refl _, h⟩
  | cons r rest ih =>
      obtain ⟨hnext, hline⟩ := handleEvent_behind r.env h (hnarrower 0) hn
        (htracked r List.mem_cons_self)
      have hrest := ih (fun i => hnarrower (i + 1))
        (fun r' hr' => htracked r' (List.mem_cons_of_mem _ hr')) hnext
      simp only [underFilters, List.mapIdx_cons, linesFrom, List.foldl_cons]
      refine ⟨?_, hrest.2⟩
      apply List.Sublist.append _ hrest.1
      rcases hline with hnone | hsame
      · rw [hnone]
        exact List.nil_sublist _
      · rw [hsame]

/-- One run handled twice, whatever is attached and lost in it. The filters
change in any way between the records, and those of the first time are at every
record narrower than those of the second, as is the `--max-depth`. Both times the
same is learnt, and what the first prints is part of what the second prints. -/
theorem narrower_filters_hide (S : Session) (att : Attachment) (acts : List Action) (n : Int64)
    (hn : S.Shallower n) (F G : Nat → Filters) (hnarrower : ∀ i, (F i).Narrower (G i)) :
    (linesFrom S Tracker.start (underFilters F (Machine.run S att acts).ring)).Sublist
        (linesFrom (S.withMaxDepth n) Tracker.start
          (underFilters G (Machine.run (S.withMaxDepth n) att acts).ring)) ∧
      (Tracker.after S (underFilters F (Machine.run S att acts).ring)).caches =
        (Tracker.after (S.withMaxDepth n)
          (underFilters G (Machine.run (S.withMaxDepth n) att acts).ring)).caches := by
  have hring : Machine.run (S.withMaxDepth n) att acts = Machine.run S att acts := rfl
  rw [hring]
  obtain ⟨hlines, hbehind⟩ :=
    behind_stream hn hnarrower (Machine.entriesTracked S att acts) behind_start
  exact ⟨hlines, hbehind.caches⟩

/-- Nothing is too deep without a limit. -/
theorem Session.shallower_unlimited (S : Session) : S.Shallower 0 := by
  intro depth hdeep
  simp [tooDeep, Session.withMaxDepth] at hdeep

/-- Nothing is narrower than what `clear` leaves. -/
theorem Filters.narrower_cleared (f : Filters) : f.Narrower .cleared where
  slot _ _ := rfl
  line _ _ _ _ _ := rfl

namespace Scenario

/-- Two calls one after the other. -/
def twoVisits : List Action :=
  [.enter 1 0 plainHit, .leave 1 plainHit, .enter 1 0 plainHit, .leave 1 plainHit]

/-- Narrow filters until `clear` is typed during the second call. -/
def clearedLate (i : Nat) : Filters := if i < 3 then narrowFilters else .cleared

/-- The return of a tracked call shows its text all the same. -/
example : (linesFrom oneOffset Tracker.start
      (underFilters clearedLate (Machine.run oneOffset .all twoVisits).ring)).length = 1 ∧
    (linesFrom oneOffset Tracker.start (underFilters (fun _ => .cleared)
      (Machine.run oneOffset .all twoVisits).ring)).length = 4 := by
  decide +kernel

end Scenario

open Scenario in
theorem narrower_filters_hide_twoVisits :
    (linesFrom oneOffset Tracker.start
        (underFilters clearedLate (Machine.run oneOffset .all twoVisits).ring)).Sublist
      (linesFrom (oneOffset.withMaxDepth 0) Tracker.start
        (underFilters (fun _ => .cleared)
          (Machine.run (oneOffset.withMaxDepth 0) .all twoVisits).ring)) :=
  (narrower_filters_hide oneOffset .all twoVisits 0 oneOffset.shallower_unlimited clearedLate
    (fun _ => .cleared) (fun i => (clearedLate i).narrower_cleared)).1

end JniProbe
