import JniProbe.Loader.UpToTime
import JniProbe.System.Refinement
import JniProbe.System.SameTarget
import JniProbe.System.Snapshot

/-!
Two sessions beside each other. While they track the functions that are called
alike, their counters, the depths in their records and the frames in their
trackers agree, so they emit the same lines but for durations, whatever their
filters were before.
-/

namespace JniProbe

open GoText HeightSlots

/-! ### The lines of a stream -/

/-- The lines that the records make the loader emit from a tracking state on. -/
def linesFrom (S : Session) : Tracker → List Record → List Bytes
  | _, [] => []
  | t, r :: rest =>
    (handleEvent S r.env t r.evt).2.toList ++ linesFrom S (handleEvent S r.env t r.evt).1 rest

/-- The lines emitted for the records that `after` adds to a run. -/
def linesSince (S : Session) (before after : List Action) : List Bytes :=
  linesFrom S (Tracker.after S (Machine.run S .all before).ring)
    ((Machine.run S .all (before ++ after)).ring.drop (Machine.run S .all before).ring.length)

theorem linesFrom_append (S : Session) (before recs more : List Record) :
    linesFrom S (Tracker.after S before) (recs ++ more) =
      linesFrom S (Tracker.after S before) recs ++
        linesFrom S (Tracker.after S (before ++ recs)) more := by
  induction recs generalizing before with
  | nil => simp [linesFrom]
  | cons r rest ih =>
      have hmore := ih (before ++ [r])
      rw [Tracker.after_concat, List.append_assoc, List.singleton_append] at hmore
      simp only [List.cons_append, linesFrom, hmore, List.append_assoc]

theorem linesFrom_singleton (S : Session) (t : Tracker) (r : Record) :
    linesFrom S t [r] = (handleEvent S r.env t r.evt).2.toList := by
  simp [linesFrom]

theorem linesSince_of_added {S : Session} {before after : List Action} {added : List Record}
    (h : (Machine.run S .all (before ++ after)).ring =
      (Machine.run S .all before).ring ++ added) :
    linesSince S before after =
      linesFrom S (Tracker.after S (Machine.run S .all before).ring) added := by
  rw [linesSince, h, List.drop_left]

/-! ### Tracked functions -/

theorem Session.tracked_of_slot (S : Session) {off : UInt64} {slot : Nat}
    (h : S.slotAt off = some slot) : S.tracked off = S.retSet slot := by
  rw [Bool.eq_iff_iff, Session.tracked, List.contains_iff_mem, S.mem_retOffsets]
  constructor
  · rintro ⟨slot', hslot', hret⟩
    rw [h] at hslot'
    obtain rfl := Option.some.inj hslot'
    exact hret
  · intro hret
    exact ⟨slot, h, hret⟩

theorem Session.tracked_of_none (S : Session) {off : UInt64} (h : S.slotAt off = none) :
    S.tracked off = false := by
  rw [Bool.eq_false_iff, ne_eq, Session.tracked, List.contains_iff_mem, S.mem_retOffsets]
  rintro ⟨slot, hslot, -⟩
  rw [h] at hslot
  cases hslot

theorem Session.mem_offsets_iff (S : Session) (off : UInt64) :
    off ∈ S.offsets ↔ (S.slotAt off).isSome = true :=
  AList.lookup_isSome.symm

theorem Session.entryLive_iff_slot (S : Session) (off : UInt64) :
    S.entryLive .all off = (S.slotAt off).isSome := by
  rw [S.entryLive_all, Bool.eq_iff_iff, decide_eq_true_eq, S.mem_offsets_iff]

/-- Two sessions with the same slots and the same return sets track the same
functions. -/
theorem Session.tracked_congr {S S' : Session} {off : UInt64} (hslot : S.slotAt off = S'.slotAt off)
    (halike : ∀ slot, S.slotAt off = some slot → S.retSet slot = S'.retSet slot) :
    S.tracked off = S'.tracked off := by
  cases h : S.slotAt off with
  | none => rw [S.tracked_of_none h, S'.tracked_of_none (hslot ▸ h)]
  | some slot => rw [S.tracked_of_slot h, S'.tracked_of_slot (hslot ▸ h), halike slot h]

theorem Session.hasret_of_covers {S : Session} {m : Machine} {tid : UInt32} {off : UInt64}
    {hit : Hit} (h : Machine.Covers S m (.enter tid off hit)) : S.hasret off = S.tracked off := by
  rw [Bool.eq_iff_iff]
  constructor
  · intro hhas
    exact S.tracked_of_hasret hhas
  · intro htracked
    exact (h htracked).1

/-! ### Call stacks beside each other -/

section Stacks

variable {S S' : Session} {att att' : Attachment} {m m' : Machine}
  {R : OpenCall → OpenCall → Prop}

/-- Call stacks that are related call by call stay so when both grow by
related calls. -/
theorem Machine.forall₂_stacks_enter
    (h : ∀ t, List.Forall₂ R (m.callStacks t) (m'.callStacks t)) {tid : UInt32}
    {off off' : UInt64} {hit hit' : Hit}
    (hnew : R ⟨m.next, off, counts S att m tid off hit⟩
      ⟨m'.next, off', counts S' att' m' tid off' hit'⟩) (t : UInt32) :
    List.Forall₂ R ((enter S att m tid off hit).callStacks t)
      ((enter S' att' m' tid off' hit').callStacks t) := by
  rw [stacks_enter, stacks_enter]
  by_cases ht : t = tid
  · subst ht
    rw [Function.update_self, Function.update_self]
    exact .cons hnew (h t)
  · rw [Function.update_of_ne ht, Function.update_of_ne ht]
    exact h t

/-- They stay so when both drop their innermost call. -/
theorem Machine.forall₂_stacks_leave
    (h : ∀ t, List.Forall₂ R (m.callStacks t) (m'.callStacks t)) (tid : UInt32)
    (hit hit' : Hit) (t : UInt32) :
    List.Forall₂ R ((leave S att m tid hit).callStacks t)
      ((leave S' att' m' tid hit').callStacks t) := by
  have hhere := h tid
  cases hstack : m.callStacks tid with
  | nil =>
      rw [hstack, List.forall₂_nil_left_iff] at hhere
      rw [leave_idle hstack, leave_idle hhere]
      exact h t
  | cons call rest =>
      rw [hstack, List.forall₂_cons_left_iff] at hhere
      obtain ⟨call', rest', -, hrest, hstack'⟩ := hhere
      rw [stacks_leave hstack, stacks_leave hstack']
      by_cases ht : t = tid
      · subst ht
        rwa [Function.update_self, Function.update_self]
      · rw [Function.update_of_ne ht, Function.update_of_ne ht]
        exact h t

end Stacks

/-- The same functions are open, and both sessions treat each of them alike. -/
def Machine.SameCalls (S S' : Session) (m m' : Machine) : Prop :=
  ∀ t, List.Forall₂ (fun c c' => c.off = c'.off ∧ S.tracked c.off = S'.tracked c'.off)
    (m.callStacks t) (m'.callStacks t)

theorem Machine.SameCalls.length_openTracked {S S' : Session} {m m' : Machine}
    (h : Machine.SameCalls S S' m m') (t : UInt32) :
    (m.openTracked S t).length = (m'.openTracked S' t).length := by
  have hreverse {xs ys : List OpenCall} (hxs : List.Forall₂ (fun c c' =>
      c.off = c'.off ∧ S.tracked c.off = S'.tracked c'.off) xs ys) :
      (xs.filter (fun c => S.tracked c.off)).length =
        (ys.filter (fun c => S'.tracked c.off)).length := by
    induction hxs with
    | nil => rfl
    | cons hc _ ih =>
        rw [List.filter_cons, List.filter_cons, hc.2]
        split
        · rw [List.length_cons, List.length_cons, ih]
        · exact ih
  simp only [Machine.openTracked, List.length_map, List.filter_reverse, List.length_reverse]
  exact hreverse (h t)

/-- The same functions are open. -/
def Machine.SameOffsets (m m' : Machine) : Prop :=
  ∀ t, List.Forall₂ (fun c c' => c.off = c'.off) (m.callStacks t) (m'.callStacks t)

/-- Two sessions see the same calls of one target run, whatever they track. -/
theorem sameOffsets_run {S S' : Session} {acts acts' : List Action} {R : Hit → Hit → Prop}
    (h : List.Forall₂ (Action.Alike R) acts acts') :
    (Machine.run S .all acts).SameOffsets (Machine.run S' .all acts') := by
  apply Runs.simulation _ _ h (fun _ => .nil)
  intro m m' a a' hm ha t
  cases a with
  | enter tid off hit =>
      cases a' with
      | leave tid' hit' => exact ha.elim
      | enter tid' off' hit' =>
          obtain ⟨rfl, rfl, -⟩ := ha
          exact Machine.forall₂_stacks_enter hm rfl t
  | leave tid hit =>
      cases a' with
      | enter tid' off' hit' => exact ha.elim
      | leave tid' hit' =>
          obtain ⟨rfl, -⟩ := ha
          exact Machine.forall₂_stacks_leave hm tid hit hit' t

/-! ### One step beside the other -/

/-- Two machines whose loaders have agreed so far. -/
structure Beside (S S' : Session) (m m' : Machine) : Prop where
  tracker : (Tracker.after S m.ring).SameButTime (Tracker.after S' m'.ring)
  calls : Machine.SameCalls S S' m m'

/-- The lines of the records that one step adds on each side. -/
def Machine.StepsAlike (S S' : Session) (m m' n n' : Machine) : Prop :=
  ∃ added added', n.ring = m.ring ++ added ∧ n'.ring = m'.ring ++ added' ∧
    List.Forall₂ SameLine (linesFrom S (Tracker.after S m.ring) added)
      (linesFrom S' (Tracker.after S' m'.ring) added')

theorem forall₂_toList {α β : Type} {R : α → β → Prop} {o : Option α} {o' : Option β}
    (h : Option.Rel R o o') : List.Forall₂ R o.toList o'.toList := by
  cases h with
  | none => exact .nil
  | some hR => exact .cons hR .nil

section Step

variable {S S' : Session} {m m' : Machine} {tid : UInt32} {off : UInt64} {hit hit' : Hit}

/-- Records that both loaders handle alike. -/
theorem Beside.of_records {n n' : Machine} {r r' : Record}
    (hring : n.ring = m.ring ++ [r]) (hring' : n'.ring = m'.ring ++ [r'])
    (hcalls : Machine.SameCalls S S' n n')
    (hhandled : (handleEvent S r.env (Tracker.after S m.ring) r.evt).1.SameButTime
        (handleEvent S' r'.env (Tracker.after S' m'.ring) r'.evt).1 ∧
      Option.Rel SameLine (handleEvent S r.env (Tracker.after S m.ring) r.evt).2
        (handleEvent S' r'.env (Tracker.after S' m'.ring) r'.evt).2) :
    Beside S S' n n' ∧ Machine.StepsAlike S S' m m' n n' := by
  refine ⟨⟨?_, hcalls⟩, [r], [r'], hring, hring', ?_⟩
  · rw [hring, hring', Tracker.after_concat, Tracker.after_concat]
    exact hhandled.1
  · rw [linesFrom_singleton, linesFrom_singleton]
    exact forall₂_toList hhandled.2

/-- Steps without a record. -/
theorem Beside.silent (h : Beside S S' m m') {n n' : Machine} (hring : n.ring = m.ring)
    (hring' : n'.ring = m'.ring) (hcalls : Machine.SameCalls S S' n n') :
    Beside S S' n n' ∧ Machine.StepsAlike S S' m m' n n' := by
  refine ⟨⟨?_, hcalls⟩, [], [], ?_, ?_, .nil⟩
  · rw [hring, hring']
    exact h.tracker
  · rw [hring, List.append_nil]
  · rw [hring', List.append_nil]

theorem Hit.SameMoment.ret (h : hit.SameMoment hit') : hit.ctx.ret = hit'.ctx.ret := by
  rw [h.ctx]

theorem Hit.SameMoment.mem (h : hit.SameMoment hit') : hit.ctx.mem = hit'.ctx.mem := by
  rw [h.ctx]

theorem Hit.SameMoment.env (h : hit.SameMoment hit')
    (hfilters : hit.env.filters.Same hit'.env.filters) : hit.env.Same hit'.env :=
  ⟨h.mr, h.moduleOf, hfilters⟩

/-- Where both sessions track a function or neither, its entries show the same
depth: the counters of tracked calls agree, and other entries show none. -/
theorem Beside.entry_depth (h : Beside S S' m m') (hcounted : Counted S m)
    (hcounted' : Counted S' m') (hcovers : Machine.Covers S m (.enter tid off hit))
    (hcovers' : Machine.Covers S' m' (.enter tid off hit'))
    (htracked : S.tracked off = S'.tracked off)
    (raw raw' : Evt) :
    (entryEvt S.maps (DepthMap.count m.depth tid) (Machine.entryCtx S tid off hit) raw).depth =
      (entryEvt S'.maps (DepthMap.count m'.depth tid) (Machine.entryCtx S' tid off hit')
        raw').depth := by
  rw [Machine.entryEvt_depth_at, Machine.entryEvt_depth_at,
    Session.hasret_of_covers hcovers, Session.hasret_of_covers hcovers', ← htracked]
  split
  · rename_i hyes
    have hcount := hcounted.at_entry (hcovers hyes).2.2
    have hcount' := hcounted'.at_entry (hcovers' (htracked ▸ hyes)).2.2
    rw [h.calls.length_openTracked, ← hcount'] at hcount
    rw [UInt32.toNat_inj.mp hcount]
  · rfl

/-- A function is entered that both sessions track or neither. -/
theorem Beside.enter (h : Beside S S' m m') (hcfg : S.cfg = S'.cfg) (hbase : S.base = S'.base)
    (hslots : ∀ off, S.slotAt off = S'.slotAt off) (hputs : S.PutsSucceed)
    (hputs' : S'.PutsSucceed) (hcounted : Counted S m) (hcounted' : Counted S' m')
    (hcovers : Machine.Covers S m (.enter tid off hit))
    (hcovers' : Machine.Covers S' m' (.enter tid off hit')) (hsame : hit.SameMoment hit')
    (hfilters : hit.env.filters.Same hit'.env.filters)
    (halike : ∀ slot, S.slotAt off = some slot → S.retSet slot = S'.retSet slot) :
    Beside S S' (Machine.enter S .all m tid off hit) (Machine.enter S' .all m' tid off hit') ∧
      Machine.StepsAlike S S' m m' (Machine.enter S .all m tid off hit)
        (Machine.enter S' .all m' tid off hit') := by
  have htracked : S.tracked off = S'.tracked off := Session.tracked_congr (hslots off) halike
  have hcalls : Machine.SameCalls S S' (Machine.enter S .all m tid off hit)
      (Machine.enter S' .all m' tid off hit') :=
    Machine.forall₂_stacks_enter h.calls ⟨rfl, htracked⟩
  obtain ⟨raw, hraw⟩ := Option.isSome_iff_exists.mp hsame.recorded
  obtain ⟨raw', hraw'⟩ := Option.isSome_iff_exists.mp hsame.recorded'
  cases hslot : S.slotAt off with
  | none =>
      have hdead : S.entryLive .all off = false := by
        rw [S.entryLive_iff_slot, hslot, Option.isSome_none]
      have hdead' : S'.entryLive .all off = false := by
        rw [S'.entryLive_iff_slot, ← hslots, hslot, Option.isSome_none]
      apply h.silent _ _ hcalls
      · rw [Machine.enter_silent (by simp [hdead])]
      · rw [Machine.enter_silent (by simp [hdead'])]
  | some slot =>
      have hlive : S.entryLive .all off = true := by
        rw [S.entryLive_iff_slot, hslot, Option.isSome_some]
      have hlive' : S'.entryLive .all off = true := by
        rw [S'.entryLive_iff_slot, ← hslots, hslot, Option.isSome_some]
      have hring : (Machine.enter S .all m tid off hit).ring =
          m.ring ++ [Machine.enterRecord S m tid off hit raw] := by
        rw [Machine.enter_recorded raw hlive hraw]
      have hring' : (Machine.enter S' .all m' tid off hit').ring =
          m'.ring ++ [Machine.enterRecord S' m' tid off hit' raw'] := by
        rw [Machine.enter_recorded raw' hlive' hraw']
      apply Beside.of_records hring hring' hcalls
      cases hw : watched S.cfg tid with
      | false =>
          rw [handleEvent_unwatched _ _ _ (by rw [entryEvt_tid]; exact hw),
            handleEvent_unwatched _ _ _ (by rw [entryEvt_tid, ← hcfg]; exact hw)]
          exact ⟨h.tracker, .none⟩
      | true =>
          rw [handleEvent_entry _ _ _ (by rw [entryEvt_tid]; exact hw) (entryEvt_kind _ _ _ _),
            handleEvent_entry _ _ _ (by rw [entryEvt_tid, ← hcfg]; exact hw)
              (entryEvt_kind _ _ _ _)]
          have hoff : (Machine.entryCtx S tid off hit).ip - S.base = off := Machine.entryCtx_offset
          have hoff' : (Machine.entryCtx S' tid off hit').ip - S'.base = off :=
            Machine.entryCtx_offset
          apply handleEntry_sameButTime hcfg (hsame.env hfilters) h.tracker
          · rw [entryEvt_ip, entryEvt_ip, hoff, hoff']
            exact hslots off
          · intro slot' hslot'
            rw [entryEvt_ip, hoff, hslot] at hslot'
            obtain rfl := Option.some.inj hslot'
            refine ⟨halike slot hslot, ?_⟩
            have hret : (Machine.entryCtx S tid off hit).ret =
                (Machine.entryCtx S' tid off hit').ret := hsame.ret
            have hparm : (Machine.entryCtx S tid off hit).parm =
                (Machine.entryCtx S' tid off hit').parm := hsame.sameWords.parm
            have hmem : (Machine.entryCtx S tid off hit).mem =
                (Machine.entryCtx S' tid off hit').mem := hsame.mem
            have hip : (Machine.entryCtx S tid off hit).ip =
                (Machine.entryCtx S' tid off hit').ip := by
              simp only [Machine.entryCtx, hbase]
            have htid : (Machine.entryCtx S tid off hit).tid =
                (Machine.entryCtx S' tid off hit').tid := rfl
            exact entryEvt_readsAlike hputs hputs' (hoff.symm ▸ hslot)
              (hoff'.symm ▸ (hslots off).symm.trans hslot) htid hip hret hparm hmem
              (h.entry_depth hcounted hcounted' hcovers hcovers' htracked raw raw')

/-- A function is left that both sessions track or neither. -/
theorem Beside.leave (h : Beside S S' m m') (hcfg : S.cfg = S'.cfg) (hcounted : Counted S m)
    (hcounted' : Counted S' m') (hsame : hit.SameMoment hit')
    (hfilters : hit.env.filters.Same hit'.env.filters) :
    Beside S S' (Machine.leave S .all m tid hit) (Machine.leave S' .all m' tid hit') ∧
      Machine.StepsAlike S S' m m' (Machine.leave S .all m tid hit)
        (Machine.leave S' .all m' tid hit') := by
  have hhere := h.calls tid
  cases hstack : m.callStacks tid with
  | nil =>
      rw [hstack, List.forall₂_nil_left_iff] at hhere
      rw [Machine.leave_idle hstack, Machine.leave_idle hhere]
      exact h.silent rfl rfl h.calls
  | cons call rest =>
      rw [hstack, List.forall₂_cons_left_iff] at hhere
      obtain ⟨call', rest', ⟨hoff, htracked⟩, hrest, hstack'⟩ := hhere
      have hcalls : Machine.SameCalls S S' (Machine.leave S .all m tid hit)
          (Machine.leave S' .all m' tid hit') :=
        Machine.forall₂_stacks_leave h.calls tid hit hit'
      cases hyes : S.tracked call.off with
      | false =>
          apply h.silent _ _ hcalls
          · rw [Machine.leave_silent hstack (by simp [S.returnLive_all, hyes])]
          · rw [Machine.leave_silent hstack' (by simp [S'.returnLive_all, ← htracked, hyes])]
      | true =>
          obtain ⟨raw, hraw⟩ := Option.isSome_iff_exists.mp hsame.recorded
          obtain ⟨raw', hraw'⟩ := Option.isSome_iff_exists.mp hsame.recorded'
          have hyes' : S'.tracked call'.off = true := htracked ▸ hyes
          have hring : (Machine.leave S .all m tid hit).ring =
              m.ring ++ [Machine.leaveRecord m tid hit call.id raw] := by
            rw [Machine.leave_recorded raw hstack (by rw [S.returnLive_all, hyes]) hraw]
          have hring' : (Machine.leave S' .all m' tid hit').ring =
              m'.ring ++ [Machine.leaveRecord m' tid hit' call'.id raw'] := by
            rw [Machine.leave_recorded raw' hstack' (by rw [S'.returnLive_all, hyes']) hraw']
          have hopen : m.openTracked S tid ≠ [] := by
            rw [Machine.openTracked_of_stack S .all hit hstack, hyes, if_pos rfl]
            exact List.append_ne_nil_of_right_ne_nil _ (List.cons_ne_nil _ _)
          have hopen' : m'.openTracked S' tid ≠ [] := by
            rw [Machine.openTracked_of_stack S' .all hit' hstack', hyes', if_pos rfl]
            exact List.append_ne_nil_of_right_ne_nil _ (List.cons_ne_nil _ _)
          have hdrop : Machine.dropOne (DepthMap.count m.depth tid) =
              Machine.dropOne (DepthMap.count m'.depth tid) := by
            have hlow := hcounted.at_return hopen
            have hlow' := hcounted'.at_return hopen'
            rw [h.calls.length_openTracked, ← hlow'] at hlow
            exact UInt32.toNat_inj.mp (Nat.add_right_cancel hlow)
          apply Beside.of_records hring hring' hcalls
          cases hw : watched S.cfg tid with
          | false =>
              rw [handleEvent_unwatched _ _ _ (show watched S.cfg tid = false from hw),
                handleEvent_unwatched _ _ _ (show watched S'.cfg tid = false from hcfg ▸ hw)]
              exact ⟨h.tracker, .none⟩
          | true =>
              rw [handleEvent_return _ _ _ (show watched S.cfg tid = true from hw) rfl,
                handleEvent_return _ _ _ (show watched S'.cfg tid = true from hcfg ▸ hw) rfl]
              refine handleReturn_sameButTime hcfg (hsame.env hfilters) h.tracker ?_ ?_ ?_
              · rfl
              · exact congrArg UInt32.toInt32 hdrop
              · exact congrArg (fun parm => Vector.get parm 0) hsame.sameWords.parm

end Step

/-! ### Whole runs -/

/-- Sessions that differ in what they track and show. -/
structure Session.SameBut (S S' : Session) : Prop where
  cfg : S.cfg = S'.cfg
  base : S.base = S'.base
  slots : ∀ off, S.slotAt off = S'.slotAt off

/-- Actions seen by both sessions under filters that say the same. -/
def Action.SameFilters (a a' : Action) : Prop := a.hit.env.filters.Same a'.hit.env.filters

/-- A call of a function that both sessions track or neither. -/
def Action.TracksAlike (S S' : Session) : Action → Prop
  | .enter _ off _ => ∀ slot, S.slotAt off = some slot → S.retSet slot = S'.retSet slot
  | .leave _ _ => True

theorem toInt32_surjective : Function.Surjective UInt32.toInt32 := fun i => ⟨i.toUInt32, by simp⟩

/-- While a thread has no tracked call open, no frame of it is stored. -/
theorem Covered.frames_of_quiet {S : Session} {acts : List Action} (h : Covered S acts)
    (hquiet : ∀ t, (Machine.run S .all acts).openTracked S t = []) (k : Key) :
    (Tracker.after S (Machine.run S .all acts).ring).frames k = none := by
  obtain ⟨i, d⟩ := k
  obtain ⟨t, rfl⟩ := toInt32_surjective i
  rw [h.follows.frames]
  cases hw : watched S.cfg t with
  | false => rfl
  | true =>
      have hnone := h.follows.calls t hw
      rw [hquiet, List.map_eq_nil_iff] at hnone
      rw [hnone, List.map_nil]
      exact slots_nil _ _

/-- At a moment without open tracked calls two sessions of one target run are
beside each other, whatever either of them tracked and showed before. -/
theorem beside_of_quiet {S S' : Session} (hsame : S.SameBut S') {before before' : List Action}
    (hrun : List.Forall₂ (Action.Alike Hit.SameMoment) before before')
    (hcovered : Covered S before) (hcovered' : Covered S' before')
    (hquiet : ∀ t, (Machine.run S .all before).openTracked S t = [])
    (hquiet' : ∀ t, (Machine.run S' .all before').openTracked S' t = []) :
    Beside S S' (Machine.run S .all before) (Machine.run S' .all before') where
  tracker := by
    constructor
    · rw [hcovered.pairsOwn.caches_taught, hcovered'.pairsOwn.caches_taught]
      apply taught_sameWords hsame.slots
      · intro tid
        rw [hsame.cfg]
      · exact hrun.imp (fun _ _ ha => ha.imp (fun _ _ => Hit.SameMoment.sameWords))
    · intro k
      rw [hcovered.frames_of_quiet hquiet, hcovered'.frames_of_quiet hquiet']
      exact .none
  calls t := by
    have hnone {S : Session} {m : Machine} (hq : m.openTracked S t = []) :
        ∀ c ∈ m.callStacks t, S.tracked c.off = false := by
      intro c hc
      rw [Machine.openTracked, List.map_eq_nil_iff, List.filter_eq_nil_iff] at hq
      exact Bool.eq_false_iff.mpr (hq c (List.mem_reverse.mpr hc))
    have hoffs : List.Forall₂ (fun c c' : OpenCall => c.off = c'.off)
        ((Machine.run S .all before).callStacks t) ((Machine.run S' .all before').callStacks t) :=
      sameOffsets_run hrun t
    have hleft := (List.forall₂_and_left _ _).mpr ⟨hnone (hquiet t), hoffs⟩
    have hright := (List.forall₂_and_left _ _).mpr ⟨hnone (hquiet' t), hleft.flip⟩
    apply hright.flip.imp
    rintro c c' ⟨hc', hc, hoff⟩
    exact ⟨hoff, by rw [hc, hc']⟩

theorem Machine.StepsAlike.trans {S S' : Session} {m m' n n' p p' : Machine}
    (h : Machine.StepsAlike S S' m m' n n') (hnext : Machine.StepsAlike S S' n n' p p') :
    Machine.StepsAlike S S' m m' p p' := by
  obtain ⟨added, added', hring, hring', hlines⟩ := h
  obtain ⟨more, more', hmore, hmore', hrest⟩ := hnext
  refine ⟨added ++ more, added' ++ more', ?_, ?_, ?_⟩
  · rw [hmore, hring, List.append_assoc]
  · rw [hmore', hring', List.append_assoc]
  · rw [linesFrom_append, linesFrom_append, ← hring, ← hring']
    exact List.rel_append hlines hrest

/-- One more action of the target. -/
theorem Beside.step {S S' : Session} {m m' : Machine} (h : Beside S S' m m')
    (hsame : S.SameBut S') (hputs : S.PutsSucceed) (hputs' : S'.PutsSucceed) {a a' : Action}
    (ha : a.Alike Hit.SameMoment a') (hfilters : a.SameFilters a') (halike : a.TracksAlike S S')
    (hcounted : Counted S m) (hcounted' : Counted S' m') (hcovers : Machine.Covers S m a)
    (hcovers' : Machine.Covers S' m' a') :
    Beside S S' (Machine.step S .all m a) (Machine.step S' .all m' a') ∧
      Machine.StepsAlike S S' m m' (Machine.step S .all m a) (Machine.step S' .all m' a') := by
  cases a with
  | enter tid off hit =>
      cases a' with
      | leave tid' hit' => exact ha.elim
      | enter tid' off' hit' =>
          obtain ⟨rfl, rfl, hmoment⟩ := ha
          exact h.enter hsame.cfg hsame.base hsame.slots hputs hputs' hcounted hcounted' hcovers
            hcovers' hmoment hfilters halike
  | leave tid hit =>
      cases a' with
      | enter tid' off' hit' => exact ha.elim
      | leave tid' hit' =>
          obtain ⟨rfl, hmoment⟩ := ha
          exact h.leave hsame.cfg hcounted hcounted' hmoment hfilters

theorem Covered.covers_next {S : Session} {before rest : List Action} {a : Action}
    (h : Covered S (before ++ a :: rest)) : Machine.Covers S (Machine.run S .all before) a := by
  have hwithin : before ++ [a] <+: before ++ a :: rest := by
    rw [List.prefix_append_right_inj]
    exact List.prefix_append [a] rest
  exact ((Runs.along_concat _ _ _ _ _).mp (h.of_prefix hwithin).along).2

/-- Both sessions emit the same lines from then on, but for durations. -/
theorem Beside.run {S S' : Session} (hsame : S.SameBut S') (hputs : S.PutsSucceed)
    (hputs' : S'.PutsSucceed) {before before' after after' : List Action}
    (h : Beside S S' (Machine.run S .all before) (Machine.run S' .all before'))
    (hrun : List.Forall₂ (Action.Alike Hit.SameMoment) after after')
    (hfilters : List.Forall₂ Action.SameFilters after after')
    (halike : ∀ a ∈ after, a.TracksAlike S S')
    (hcovered : Covered S (before ++ after)) (hcovered' : Covered S' (before' ++ after')) :
    Machine.StepsAlike S S' (Machine.run S .all before) (Machine.run S' .all before')
      (Machine.run S .all (before ++ after)) (Machine.run S' .all (before' ++ after')) := by
  induction hrun generalizing before before' with
  | nil =>
      rw [List.append_nil, List.append_nil]
      exact (h.silent rfl rfl h.calls).2
  | @cons a a' rest rest' ha _ ih =>
      rw [List.forall₂_cons] at hfilters
      have hstep := h.step hsame hputs hputs' ha hfilters.1 (halike a List.mem_cons_self)
        (hcovered.of_prefix (List.prefix_append _ _)).counted
        (hcovered'.of_prefix (List.prefix_append _ _)).counted hcovered.covers_next
        hcovered'.covers_next
      rw [← Machine.run_concat, ← Machine.run_concat] at hstep
      have hsplit : before ++ a :: rest = before ++ [a] ++ rest := by
        rw [List.append_assoc, List.singleton_append]
      have hsplit' : before' ++ a' :: rest' = before' ++ [a'] ++ rest' := by
        rw [List.append_assoc, List.singleton_append]
      rw [hsplit] at hcovered ⊢
      rw [hsplit'] at hcovered' ⊢
      exact hstep.2.trans (ih hstep.1 hfilters.2 (fun b hb => halike b (List.mem_cons_of_mem _ hb))
        hcovered hcovered')

theorem Machine.StepsAlike.linesSince {S S' : Session} {before before' after after' : List Action}
    (h : Machine.StepsAlike S S' (Machine.run S .all before) (Machine.run S' .all before')
      (Machine.run S .all (before ++ after)) (Machine.run S' .all (before' ++ after'))) :
    List.Forall₂ SameLine (linesSince S before after) (linesSince S' before' after') := by
  obtain ⟨added, added', hring, hring', hlines⟩ := h
  rw [linesSince_of_added hring, linesSince_of_added hring']
  exact hlines

end JniProbe
