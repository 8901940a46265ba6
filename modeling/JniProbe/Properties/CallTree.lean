import JniProbe.Properties.Lines
import JniProbe.Properties.ThreadChurn
import JniProbe.System.TwoSessions

/-!
Indentation and `--max-depth`. The depth that both go by is in the records of
tracked functions alone; the entries of the others are printed at the margin and
at any depth, so they show the call tree only outside of tracked calls.
-/

namespace JniProbe

open GoText GoFormat HeightSlots

/-! ### The line of an entry -/

/-- What the filters in force say of an entry, but for its depth. -/
def acceptsEntry (S : Session) (env : Env) (t : Tracker) (e : Evt) (slot : Nat) : Bool :=
  env.filters.matchSlot slot &&
    if Session.callSet slot then
      ((describeCall e (slotName slot) t.caches env.mr).2 || S.cfg.verbose) &&
        acceptsText env.filters (entryText env t e slot) (env.moduleOf e.caller)
    else
      env.filters.matchLine [] (slotName slot) (entryText env t e slot) (env.moduleOf e.caller)

theorem entry_emits (S : Session) (env : Env) (t : Tracker) (e : Evt) {slot : Nat}
    (hslot : S.slotAt (e.ip - S.base) = some slot) :
    (handleEntry S env t e).2.isSome =
      (!tooDeep S.cfg e.depth && acceptsEntry S env t e slot) := by
  unfold acceptsEntry entryText
  cases hset : Session.callSet slot with
  | true =>
      rw [entry_emits_call S env t e hslot hset, selected]
      cases tooDeep S.cfg e.depth
      · simp [Bool.and_assoc]
      · simp
  | false =>
      rw [entry_emits_generic S env t e hslot hset, selected]
      cases tooDeep S.cfg e.depth
      · simp
      · simp

theorem event_emits (S : Session) (env : Env) (t : Tracker) (e : Evt) (hkind : e.kind = 0)
    {slot : Nat} (hslot : S.slotAt (e.ip - S.base) = some slot) :
    (handleEvent S env t e).2.isSome =
      (watched S.cfg e.tid && !tooDeep S.cfg e.depth && acceptsEntry S env t e slot) := by
  cases hw : watched S.cfg e.tid with
  | false =>
      rw [handleEvent_unwatched env t e hw]
      rfl
  | true =>
      rw [handleEvent_entry env t e hw hkind, entry_emits S env t e hslot]
      rfl

/-- The line is indented by so many levels. -/
def Indented (levels : Nat) (line : Bytes) : Prop :=
  ∃ rest, line = (List.replicate levels (str "  ")).flatten ++ str "-> " ++ rest

theorem indentStr_of_toInt {d : Int32} {k : Nat} (h : d.toInt = (k : Int)) :
    indentStr d = (List.replicate (min k 24) (str "  ")).flatten := by
  unfold indentStr
  by_cases hzero : d ≤ 0
  · have hnone : d.toInt ≤ 0 := Int32.le_iff_toInt_le.mp hzero
    have hk : min k 24 = 0 := by omega
    rw [if_pos hzero, hk]
    rfl
  · rw [if_neg hzero]
    by_cases hmany : 24 < d
    · have hlarge : 24 < d.toInt := Int32.lt_iff_toInt_lt.mp hmany
      have hk : min k 24 = 24 := by omega
      rw [if_pos hmany, hk]
    · have hsmall : d.toInt ≤ 24 := by
        apply Int.not_lt.mp
        intro hlt
        exact hmany (Int32.lt_iff_toInt_lt.mpr hlt)
      have hk : min k 24 = d.toNatClampNeg := by
        have hclamp : d.toNatClampNeg = d.toInt.toNat := rfl
        omega
      rw [if_neg hmany, hk]

/-- A line at the margin is not indented. -/
theorem indented_margin {k : Nat} {rest : Bytes} (h : Indented (min k 24) (str "-> " ++ rest)) :
    k = 0 := by
  obtain ⟨rest', hline⟩ := h
  cases hk : min k 24 with
  | zero => omega
  | succ n =>
      rw [hk, List.replicate_succ, List.flatten_cons] at hline
      have hhead : (45 : UInt8) = 32 := (List.cons.inj hline).1
      exact absurd hhead (by decide)

/-- A depth that is not too deep is at most the limit, also where the limit does
not fit into 32 bits. -/
theorem le_maxDepth {cfg : Config} (hmax : 0 < cfg.maxDepth) {d : Int32}
    (h : tooDeep cfg d = false) : d.toInt ≤ cfg.maxDepth.toInt := by
  have hpos : 0 < cfg.maxDepth.toInt := Int64.lt_iff_toInt_lt.mp hmax
  have hwithin : d.toInt ≤ cfg.maxDepth.toInt32.toInt := by
    apply Int.not_lt.mp
    intro hlt
    have hdeep : cfg.maxDepth.toInt32 < d := Int32.lt_iff_toInt_lt.mpr hlt
    simp [tooDeep, hmax, hdeep] at h
  have htruncated : cfg.maxDepth.toInt32.toInt ≤ cfg.maxDepth.toInt := by
    rw [Int64.toInt_toInt32, Int.bmod_def]
    split
    · omega
    · omega
  omega

/-! ### One step -/

/-- What is owed to an entry: a line that is printed for it is not too deep in the
tree of tracked calls, and is indented by its place there. -/
def FollowsTree (S : Session) (m : Machine) : Action → Prop
  | .enter tid off hit => ∀ r line, (Machine.enter S .all m tid off hit).ring = m.ring ++ [r] →
    (handleEvent S r.env (Tracker.after S m.ring) r.evt).2 = some line →
      ((m.openTracked S tid).length : Int) ≤ S.cfg.maxDepth.toInt ∧
        Indented (min (m.openTracked S tid).length 24) line
  | .leave _ _ => True

/-- An untracked function that is entered while a tracked call is open on the
thread is not printed: the thread is not watched, or the filters reject the entry,
or the limit does not fit into 32 bits and cuts off the depth `-1`. -/
def UntrackedOutside (S : Session) (m : Machine) : Action → Prop
  | .enter tid off hit => ∀ slot raw, S.slotAt off = some slot → S.retSet slot = false →
    hit.reserved = some raw → m.openTracked S tid ≠ [] →
      (watched S.cfg tid && !tooDeep S.cfg (-1) &&
        acceptsEntry S hit.env (Tracker.after S m.ring)
          (Machine.enterRecord S m tid off hit raw).evt slot) = false
  | .leave _ _ => True

section Steps

variable {S : Session} {m : Machine} {tid : UInt32} {off : UInt64} {hit : Hit}

/-- The entry of a function whose slot is known submits one record. -/
theorem followsTree_enter {slot : Nat} (hslot : S.slotAt off = some slot) {raw : Evt}
    (hraw : hit.reserved = some raw) :
    FollowsTree S m (.enter tid off hit) ↔ ∀ line,
      (handleEvent S hit.env (Tracker.after S m.ring)
        (Machine.enterRecord S m tid off hit raw).evt).2 = some line →
      ((m.openTracked S tid).length : Int) ≤ S.cfg.maxDepth.toInt ∧
        Indented (min (m.openTracked S tid).length 24) line := by
  have hlive : S.entryLive .all off = true := by
    rw [S.entryLive_iff_slot, hslot, Option.isSome_some]
  have hring : (Machine.enter S .all m tid off hit).ring =
      m.ring ++ [Machine.enterRecord S m tid off hit raw] := by
    rw [Machine.enter_recorded raw hlive hraw]
  constructor
  · intro h line hline
    exact h _ line hring hline
  · intro h r line hr hline
    rw [hring] at hr
    obtain rfl : Machine.enterRecord S m tid off hit raw = r := by simpa using hr
    exact h line hline

theorem followsTree_unknown (hslot : S.slotAt off = none) :
    FollowsTree S m (.enter tid off hit) := by
  intro r line hr
  have hdead : S.entryLive .all off = false := by
    rw [S.entryLive_iff_slot, hslot, Option.isSome_none]
  rw [Machine.enter_silent (by simp [hdead])] at hr
  simp at hr

variable (m tid hit) in
/-- What is printed for the record of an entry, and how it is indented. -/
theorem enterRecord_emits {slot : Nat} (hslot : S.slotAt off = some slot) (raw : Evt)
    (t : Tracker) :
    (handleEvent S hit.env t (Machine.enterRecord S m tid off hit raw).evt).2.isSome =
      (watched S.cfg tid && !tooDeep S.cfg (Machine.enterRecord S m tid off hit raw).evt.depth &&
        acceptsEntry S hit.env t (Machine.enterRecord S m tid off hit raw).evt slot) ∧
    ∀ line, (handleEvent S hit.env t (Machine.enterRecord S m tid off hit raw).evt).2 = some line →
      ∃ rest, line = indentStr (Machine.enterRecord S m tid off hit raw).evt.depth ++ str "-> " ++
        rest := by
  have hip : (Machine.enterRecord S m tid off hit raw).evt.ip - S.base = off := by
    simp [Machine.entryCtx]
  have htid : (Machine.enterRecord S m tid off hit raw).evt.tid = tid := by
    simp
  have hkind : (Machine.enterRecord S m tid off hit raw).evt.kind = 0 := by
    simp
  rw [← hip] at hslot
  have hemits := event_emits S hit.env t _ hkind hslot
  rw [htid] at hemits
  refine ⟨hemits, ?_⟩
  intro line hline
  cases hw : watched S.cfg tid with
  | false =>
      rw [hline, hw] at hemits
      cases hemits
  | true =>
      rw [← htid] at hw
      rw [handleEvent_entry hit.env t _ hw hkind] at hline
      have hform := entry_line S hit.env t _ hslot hline
      rw [List.append_assoc _ (entryText _ _ _ _)] at hform
      exact ⟨_, hform⟩

/-- The entry of a tracked function in a covered run. -/
theorem Counted.followsTree (h : Counted S m) (hmax : 0 < S.cfg.maxDepth)
    (hres : hit.reserved.isSome = true) (hcovers : Machine.Covers S m (.enter tid off hit))
    {slot : Nat} (hslot : S.slotAt off = some slot) (hret : S.retSet slot = true) :
    FollowsTree S m (.enter tid off hit) := by
  obtain ⟨raw, hraw⟩ := Option.isSome_iff_exists.mp hres
  have htracked : S.tracked off = true := by rw [S.tracked_of_slot hslot, hret]
  obtain ⟨hhas, hfit, hkey⟩ := hcovers htracked
  have hcount : _ = (m.openTracked S tid).length := h.at_entry hkey
  have hdepth : (Machine.enterRecord S m tid off hit raw).evt.depth.toInt =
      ((m.openTracked S tid).length : Int) := by
    rw [Machine.entryEvt_depth_at, if_pos hhas, toInt32_toInt, if_pos (by omega), hcount]
  rw [followsTree_enter hslot hraw]
  intro line hline
  obtain ⟨hemits, hform⟩ := enterRecord_emits m tid hit hslot raw (Tracker.after S m.ring)
  obtain ⟨rest, rfl⟩ := hform line hline
  rw [hline, Option.isSome_some] at hemits
  simp only [Bool.true_eq, Bool.and_eq_true, Bool.not_eq_true'] at hemits
  have hlimit := le_maxDepth hmax hemits.1.2
  rw [hdepth] at hlimit
  refine ⟨hlimit, rest, ?_⟩
  rw [indentStr_of_toInt hdepth]

/-- The entry of a function that is not tracked, which carries no depth. -/
theorem followsTree_untracked (hmax : 0 < S.cfg.maxDepth) {slot : Nat}
    (hslot : S.slotAt off = some slot) (hret : S.retSet slot = false) {raw : Evt}
    (hraw : hit.reserved = some raw) :
    FollowsTree S m (.enter tid off hit) ↔ UntrackedOutside S m (.enter tid off hit) := by
  have hhas : S.hasret off = false := by
    apply S.hasret_of_untracked
    rw [S.tracked_of_slot hslot, hret]
  have hdepth : (Machine.enterRecord S m tid off hit raw).evt.depth = -1 := by
    rw [Machine.entryEvt_depth_at, hhas]
    rfl
  obtain ⟨hemits, hform⟩ := enterRecord_emits m tid hit hslot raw (Tracker.after S m.ring)
  rw [hdepth] at hemits hform
  rw [followsTree_enter hslot hraw]
  constructor
  · intro h slot' raw' hslot' _ hraw' hopen
    obtain rfl : slot = slot' := Option.some.inj (hslot.symm.trans hslot')
    obtain rfl : raw = raw' := Option.some.inj (hraw.symm.trans hraw')
    rw [← hemits, ← Bool.not_eq_true]
    intro hprinted
    obtain ⟨line, hline⟩ := Option.isSome_iff_exists.mp hprinted
    obtain ⟨rest, rfl⟩ := hform line hline
    -- the line begins at the margin
    have hmargin := indented_margin (h _ hline).2
    exact hopen (List.length_eq_zero_iff.mp hmargin)
  · intro h line hline
    obtain ⟨rest, rfl⟩ := hform line hline
    have hnone : m.openTracked S tid = [] := by
      by_contra hopen
      rw [hline, h slot raw hslot hret hraw hopen] at hemits
      cases hemits
    have hlimit : 0 < S.cfg.maxDepth.toInt := Int64.lt_iff_toInt_lt.mp hmax
    rw [hnone]
    refine ⟨?_, rest, rfl⟩
    rw [List.length_nil]
    omega

end Steps

/-- In a run without losses in which every tracked call is counted, the lines of
all entries follow the tree of tracked calls exactly if no untracked function
that is entered inside of one is printed. -/
theorem max_depth_iff (S : Session) (hmax : 0 < S.cfg.maxDepth) (acts : List Action)
    (hcovered : Covered S acts) :
    Runs.Along (Machine.step S .all) (FollowsTree S) Machine.start acts ↔
      Runs.Along (Machine.step S .all) (UntrackedOutside S) Machine.start acts := by
  have hstep (before : List Action) (a : Action) (hwithin : before ++ [a] <+: acts) :
      FollowsTree S (Machine.run S .all before) a ↔
        UntrackedOutside S (Machine.run S .all before) a := by
    have hcounted := (hcovered.of_prefix ((List.prefix_append _ _).trans hwithin)).counted
    have hres := hcovered.reserved a (hwithin.subset (by simp))
    have hcovers := (Runs.along_iff_prefix _ _ _ _).mp hcovered.along before a hwithin
    cases a with
    | leave tid hit => exact Iff.rfl
    | enter tid off hit =>
        obtain ⟨raw, hraw⟩ := Option.isSome_iff_exists.mp hres
        cases hslot : S.slotAt off with
        | none =>
            apply iff_of_true (followsTree_unknown hslot)
            intro slot raw hslot'
            rw [hslot] at hslot'
            cases hslot'
        | some slot =>
            cases hret : S.retSet slot with
            | false => exact followsTree_untracked hmax hslot hret hraw
            | true =>
                apply iff_of_true (hcounted.followsTree hmax hres hcovers hslot hret)
                intro slot' raw' hslot' hret'
                obtain rfl : slot = slot' := Option.some.inj (hslot.symm.trans hslot')
                rw [hret] at hret'
                cases hret'
  rw [Runs.along_iff_prefix, Runs.along_iff_prefix]
  constructor
  · intro h before a hwithin
    exact (hstep before a hwithin).mp (h before a hwithin)
  · intro h before a hwithin
    exact (hstep before a hwithin).mpr (h before a hwithin)

namespace Scenario

/-- `FindClass` at offset 0 and `DeleteLocalRef`, which returns nothing, at
offset 1, traced with `--max-depth 1`. -/
def shallowSession : Session := ⟨{ config with maxDepth := 1 }, filters, table [6, 23], 0⟩

/-- Two calls of `FindClass` inside each other. -/
def twoDeep : List Action := [.enter 1 0 plainHit, .enter 1 0 plainHit]

theorem reserved_twoDeep (a : Action) (ha : a.hit.reserved.isSome = true) :
    ∀ b ∈ twoDeep ++ [a], b.hit.reserved.isSome = true := by
  intro b hb
  rcases List.mem_append.mp hb with hdeep | hlast
  · rcases List.mem_pair.mp hdeep with rfl | rfl
    · rfl
    · rfl
  · rw [List.mem_singleton.mp hlast]
    exact ha

theorem covered_twoDeep (a : Action) (ha : a.hit.reserved.isSome = true) :
    Covered shallowSession (twoDeep ++ [a]) := by
  have hmonitored : Monitored shallowSession (twoDeep ++ [a]) := by
    apply Monitored.of_short
    · decide +kernel
    · simp [twoDeep]
    · exact reserved_twoDeep a ha
  exact hmonitored.covered

/-- The records of the two calls and of a third inside them. -/
def thirdLine (off : UInt64) : Option Bytes :=
  (handleEvent shallowSession plainHit.env
    (Tracker.after shallowSession (Machine.run shallowSession .all twoDeep).ring)
    (Machine.enterRecord shallowSession (Machine.run shallowSession .all twoDeep) 1 off plainHit
      blank).evt).2

end Scenario

open Scenario in
/-- A call of `DeleteLocalRef` inside two open calls, where one is the limit, is
printed, and at the margin; a third call of `FindClass` is not. -/
theorem void_call_at_margin :
    Covered shallowSession (twoDeep ++ [.enter 1 1 plainHit]) ∧
      ((Machine.run shallowSession .all twoDeep).openTracked shallowSession 1).length = 2 ∧
      thirdLine 0 = none ∧ thirdLine 1 = some (str "-> DeleteLocalRef(null)") ∧
      ¬ Runs.Along (Machine.step shallowSession .all) (FollowsTree shallowSession) Machine.start
        (twoDeep ++ [.enter 1 1 plainHit]) := by
  have hopen : ((Machine.run shallowSession .all twoDeep).openTracked shallowSession 1).length =
      2 := by
    decide +kernel
  have hprinted : thirdLine 1 = some (str "-> DeleteLocalRef(null)") := by decide +kernel
  refine ⟨covered_twoDeep _ rfl, hopen, by decide +kernel, hprinted, ?_⟩
  intro h
  rw [Runs.along_concat] at h
  have hslot : shallowSession.slotAt 1 = some 23 := by decide +kernel
  have hlimit := ((followsTree_enter hslot rfl).mp h.2 _ hprinted).1
  rw [show Runs.run (Machine.step shallowSession .all) Machine.start twoDeep =
    Machine.run shallowSession .all twoDeep from rfl, hopen] at hlimit
  exact absurd hlimit (by decide)

open Scenario in
/-- Tracked calls alone follow the tree. -/
theorem max_depth_tracked :
    Runs.Along (Machine.step shallowSession .all) (FollowsTree shallowSession) Machine.start
      (twoDeep ++ [.enter 1 0 plainHit]) := by
  apply (max_depth_iff shallowSession (by decide) _ (covered_twoDeep _ rfl)).mpr
  rw [Runs.along_iff_prefix]
  intro before a hwithin
  have hmem : a ∈ twoDeep ++ [.enter 1 0 plainHit] := hwithin.subset (by simp)
  obtain rfl : a = .enter 1 0 plainHit := by simpa [twoDeep] using hmem
  intro slot raw hslot hret
  have hfind : shallowSession.slotAt 0 = some 6 := by decide +kernel
  obtain rfl : 6 = slot := Option.some.inj (hfind.symm.trans hslot)
  have htracked : shallowSession.retSet 6 = true := by decide +kernel
  rw [htracked] at hret
  cases hret

end JniProbe
