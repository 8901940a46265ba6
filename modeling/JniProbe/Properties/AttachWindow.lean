import JniProbe.Properties.Losses
import JniProbe.System.Answers
import JniProbe.System.Attaching
import JniProbe.System.Scenario

/-!
The window in which probes are attached. Calls of that time leave counters that
no return lowers and frames that no return takes. None of it lasts: from the
last attachment on, whatever went wrong before, every tracked call entered is
paired with its own return.
-/

namespace JniProbe

open GoText HeightSlots

/-- Every return record of a watched thread and of a call entered since then is
paired with its own call. -/
def PairsOwnSince (S : Session) (since : Nat) (recs : List Record) : Prop :=
  ∀ (j : Nat) (r : Record), recs[j]? = some r → r.evt.kind = 1 → watched S.cfg r.evt.tid = true →
    since ≤ r.call → pairedWith S (recs.take j) r = some r.call

theorem pairsOwnSince_concat {S : Session} {since : Nat} {recs : List Record} {r : Record}
    (h : PairsOwnSince S since recs)
    (hnew : r.evt.kind = 1 → watched S.cfg r.evt.tid = true → since ≤ r.call →
      pairedWith S recs r = some r.call) : PairsOwnSince S since (recs ++ [r]) := by
  intro j x hx hkind hw hcall
  by_cases hj : j < recs.length
  · rw [List.getElem?_append_left hj] at hx
    rw [List.take_append_of_le_length (by omega)]
    exact h j x hx hkind hw hcall
  · have hlast : j = recs.length := by
      have hlt := (List.getElem?_eq_some_iff.mp hx).1
      rw [List.length_append, List.length_singleton] at hlt
      omega
    subst hlast
    rw [List.getElem?_concat_length, Option.some_inj] at hx
    subst hx
    rw [List.take_left]
    exact hnew hkind hw hcall

/-! ### The calls entered since a moment -/

namespace Machine

/-- The counted calls of a thread that are open and were entered since then,
innermost first. -/
def heldSince (since : Nat) (m : Machine) (t : UInt32) : List Nat :=
  ((m.callStacks t).filter (fun c => c.counted && decide (since ≤ c.id))).map (·.id)

section HeldSince

variable {S : Session} {att : Attachment} {m : Machine} {tid : UInt32} {off : UInt64} {hit : Hit}
  {since : Nat}

theorem heldSince_enter_self (hsince : since ≤ m.next) :
    (enter S att m tid off hit).heldSince since tid =
      if counts S att m tid off hit then m.next :: m.heldSince since tid
      else m.heldSince since tid := by
  unfold heldSince
  rw [stacks_enter, Function.update_self, List.filter_cons]
  cases counts S att m tid off hit <;> simp [hsince]

theorem heldSince_enter_ne {t : UInt32} (ht : t ≠ tid) :
    (enter S att m tid off hit).heldSince since t = m.heldSince since t := by
  unfold heldSince
  rw [stacks_enter, Function.update_of_ne ht]

theorem heldSince_leave_ne {t : UInt32} (ht : t ≠ tid) :
    (leave S att m tid hit).heldSince since t = m.heldSince since t := by
  unfold heldSince
  cases hstack : m.callStacks tid with
  | nil => rw [leave_idle hstack]
  | cons call rest => rw [stacks_leave hstack, Function.update_of_ne ht]

/-- The innermost call heads the list if it is counted and was entered since. -/
theorem heldSince_leave_self (S : Session) (att : Attachment) (hit : Hit) {call : OpenCall}
    {rest : List OpenCall} (hstack : m.callStacks tid = call :: rest) : m.heldSince since tid =
      if call.counted && decide (since ≤ call.id) then
        call.id :: (leave S att m tid hit).heldSince since tid
      else (leave S att m tid hit).heldSince since tid := by
  unfold heldSince
  rw [stacks_leave hstack, Function.update_self, hstack, List.filter_cons]
  split <;> rfl

end HeldSince

end Machine

/-! ### What an entry leaves behind -/

section Enter

variable {S : Session} {att : Attachment} {m : Machine} {tid : UInt32} {off : UInt64} {hit : Hit}

theorem Machine.count_enter_ne {t : UInt32} (ht : t ≠ tid) :
    DepthMap.count (enter S att m tid off hit).depth t = DepthMap.count m.depth t := by
  rcases enter_cases S att m tid off hit with ⟨-, hdepth⟩ | ⟨raw, -, -, -, hdepth⟩
  · rw [hdepth]
  · rw [hdepth]
    split
    · exact DepthMap.count_update_ne _ _ ht
    · rfl

/-- In a thread with a counter, an entry stores a frame if it is counted. -/
theorem Machine.provenance_enter (hacc : m.depth.Accepts tid) :
    provenance S (enter S att m tid off hit).ring =
      if counts S att m tid off hit &&
          (watched S.cfg tid && decide ((DepthMap.count m.depth tid).toNat < 2 ^ 31)) then
        Function.update (provenance S m.ring) (tid.toInt32, (DepthMap.count m.depth tid).toInt32)
          (some m.next)
      else provenance S m.ring := by
  by_cases hrec : S.entryLive att off = true ∧ hit.reserved.isSome = true
  · obtain ⟨raw, hraw⟩ := Option.isSome_iff_exists.mp hrec.2
    have hcounts : counts S att m tid off hit = S.hasret off := by
      rw [Bool.eq_iff_iff, counts_recorded hrec.1 hraw]
      exact and_iff_left hacc
    rw [enter_recorded raw hrec.1 hraw, provenance_concat, provenanceStep_entry, hcounts]
  · rw [counts_silent hrec, enter_silent hrec]
    rfl

end Enter

/-! ### Settled probes -/

/-- Where `up_ret` is live, `up_all` is live and counts, and the other way round. -/
def Session.Matched (S : Session) (live : Attachment) : Prop :=
  ∀ off, S.returnLive live off = true ↔ S.entryLive live off = true ∧ S.hasret off = true

/-- Probes at every tracked offset match. -/
theorem Session.matched_of_attached (S : Session) (live : Attachment)
    (hoffsets : S.retOffsets.length ≤ 8192)
    (h : ∀ off, S.tracked off = true → live.uprobe off = true ∧ live.uretprobe off = true) :
    S.Matched live := by
  intro off
  rw [S.hasret_eq_tracked hoffsets, Session.returnLive, Session.entryLive, Bool.and_eq_true,
    Bool.and_eq_true]
  constructor
  · rintro ⟨htracked, -⟩
    have hmem := S.mem_offsets_of_tracked htracked
    exact ⟨⟨decide_eq_true hmem, (h off htracked).1⟩, htracked⟩
  · rintro ⟨-, htracked⟩
    exact ⟨htracked, (h off htracked).2⟩

/-- The calls entered since a moment lie in the frames map right below the
counter of their thread, whatever lies further down. -/
structure Settled (S : Session) (since : Nat) (w : Attaching) : Prop extends
    Attaching.Sound S w where
  since_le : since ≤ w.machine.next
  flags : ∀ t, ∀ c ∈ w.machine.callStacks t, since ≤ c.id → c.counted = w.hooked c.id
  height : ∀ t,
    (w.machine.heldSince since t).length ≤ (DepthMap.count w.machine.depth t).toNat
  stored : ∀ t, watched S.cfg t = true → ∀ (j id : Nat),
    (w.machine.heldSince since t)[j]? = some id → ∀ d : UInt32,
      d.toNat + j + 1 = (DepthMap.count w.machine.depth t).toNat → d.toNat < 2 ^ 31 →
        provenance S w.machine.ring (t.toInt32, d.toInt32) = some id
  own : PairsOwnSince S since w.machine.ring

namespace Settled

variable {S : Session} {since : Nat} {w : Attaching}

/-- Every state is settled with respect to the calls that it has not seen. -/
theorem now (h : Attaching.Sound S w) : Settled S w.machine.next w where
  toSound := h
  since_le := Nat.le_refl _
  flags t c hc hid := absurd (h.labelled.fresh t c hc) (Nat.not_lt.mpr hid)
  height t := by
    have hnone : w.machine.heldSince w.machine.next t = [] := by
      rw [Machine.heldSince, List.map_eq_nil_iff, List.filter_eq_nil_iff]
      intro c hc
      have hlt := h.labelled.fresh t c hc
      simp [Nat.not_le.mpr hlt]
    simp [hnone]
  stored t _ j id hid := by
    have hnone : w.machine.heldSince w.machine.next t = [] := by
      rw [Machine.heldSince, List.map_eq_nil_iff, List.filter_eq_nil_iff]
      intro c hc
      have hlt := h.labelled.fresh t c hc
      simp [Nat.not_le.mpr hlt]
    simp [hnone] at hid
  own j r hr _ _ hcall :=
    absurd (h.labelled.used r (List.mem_of_getElem? hr)) (Nat.not_lt.mpr hcall)

theorem enter (h : Settled S since w) (tid : UInt32) (off : UInt64) (hit : Hit)
    (hmatched : S.Matched w.live) (hres : hit.reserved.isSome = true)
    (hacc : w.machine.depth.Accepts tid) (hsmall : w.machine.next < 2 ^ 31) :
    Settled S since (w.act S (.enter tid off hit)) := by
  have hcounts : Machine.counts S w.live w.machine tid off hit = S.returnLive w.live off := by
    rw [Bool.eq_iff_iff, Machine.counts_iff, hmatched off]
    exact ⟨fun h => ⟨h.1, h.2.2.1⟩, fun h => ⟨h.1, hres, h.2, hacc⟩⟩
  have hroom := h.counter tid
  have hraised : (DepthMap.count w.machine.depth tid + 1).toNat =
      (DepthMap.count w.machine.depth tid).toNat + 1 := by
    rw [UInt32.toNat_add, UInt32.toNat_one]
    omega
  refine ⟨h.toSound.enter tid off hit, ?_, ?_, ?_, ?_, ?_⟩
  · simp only [Attaching.act, Machine.next_enter]
    exact Nat.le_succ_of_le h.since_le
  · intro t c hc hid
    simp only [Attaching.act, Machine.stacks_enter] at hc ⊢
    have hold (hc : c ∈ w.machine.callStacks t) : c.counted =
        Function.update w.hooked w.machine.next (S.returnLive w.live off) c.id := by
      rw [Function.update_of_ne (h.labelled.fresh t c hc).ne]
      exact h.flags t c hc hid
    by_cases ht : t = tid
    · subst ht
      rw [Function.update_self, List.mem_cons] at hc
      rcases hc with rfl | hc
      · rw [Function.update_self]
        exact hcounts
      · exact hold hc
    · rw [Function.update_of_ne ht] at hc
      exact hold hc
  · intro t
    simp only [Attaching.act]
    by_cases ht : t = tid
    · subst ht
      rw [Machine.heldSince_enter_self h.since_le, Machine.count_enter]
      split
      · rw [List.length_cons, hraised]
        exact Nat.succ_le_succ (h.height t)
      · exact h.height t
    · rw [Machine.heldSince_enter_ne ht, Machine.count_enter_ne ht]
      exact h.height t
  · intro t hw j id hid d hd hlt
    simp only [Attaching.act, Machine.provenance_enter hacc] at hid hd ⊢
    by_cases ht : t = tid
    · subst ht
      rw [Machine.heldSince_enter_self h.since_le] at hid
      rw [Machine.count_enter] at hd
      cases hc : Machine.counts S w.live w.machine t off hit with
      | false =>
          rw [hc] at hid hd
          exact h.stored t hw j id hid d hd hlt
      | true =>
          rw [hc, if_pos rfl] at hid hd
          rw [hraised] at hd
          rw [hw, Bool.true_and, Bool.true_and, if_pos (decide_eq_true (by omega))]
          cases j with
          | zero =>
              obtain rfl : d = DepthMap.count w.machine.depth t :=
                UInt32.toNat_inj.mp (by omega)
              rw [Function.update_self]
              exact hid
          | succ j =>
              rw [Function.update_of_ne]
              · exact h.stored t hw j id hid d (by omega) hlt
              · intro heq
                have hsame := toInt32_injective (Prod.mk.inj heq).2
                rw [← hsame] at hd
                omega
    · rw [Machine.heldSince_enter_ne ht] at hid
      rw [Machine.count_enter_ne ht] at hd
      have hrow := h.stored t hw j id hid d hd hlt
      split
      · rw [update_row_ne (toInt32_injective.ne ht)]
        exact hrow
      · exact hrow
  · simp only [Attaching.act]
    rcases @Machine.ring_enter S w.live w.machine tid off hit with
      hsame | ⟨r, hring, hkind, -⟩
    · rw [hsame]
      exact h.own
    · rw [hring]
      apply pairsOwnSince_concat h.own
      intro hone
      rw [hkind] at hone
      cases hone

/-- The calls below one that was entered before are older still. -/
theorem held_of_old (h : Settled S since w) {tid : UInt32} {call : OpenCall}
    {rest : List OpenCall} (hstack : w.machine.callStacks tid = call :: rest)
    (hold : call.id < since) : w.machine.heldSince since tid = [] := by
  have hsorted := h.sorted tid
  rw [hstack, List.pairwise_cons] at hsorted
  rw [Machine.heldSince, hstack, List.map_eq_nil_iff, List.filter_eq_nil_iff]
  intro c hc
  have hlt : c.id < since := by
    rcases List.mem_cons.mp hc with rfl | hin
    · exact hold
    · exact (hsorted.1 c hin).trans hold
  simp [Nat.not_le.mpr hlt]

/-- A return without a record, of a call that no counter holds. -/
theorem leave_silent (h : Settled S since w) {tid : UInt32} {hit : Hit} {call : OpenCall}
    {rest : List OpenCall} (hstack : w.machine.callStacks tid = call :: rest)
    (hsilent : ¬ (S.returnLive (w.atReturn tid) call.off = true ∧ hit.reserved.isSome = true))
    (hheld : ∀ t, ((w.machine.leave S (w.atReturn tid) tid hit).heldSince since t) =
      w.machine.heldSince since t) : Settled S since (w.act S (.leave tid hit)) := by
  have hsound := h.toSound.leave tid hit
  simp only [Attaching.act, Machine.leave_silent hstack hsilent] at hheld hsound ⊢
  refine ⟨hsound, h.since_le, ?_, ?_, ?_, h.own⟩
  · intro t c hc hid
    apply h.flags t c _ hid
    simp only at hc
    by_cases ht : t = tid
    · subst ht
      rw [Function.update_self] at hc
      rw [hstack]
      exact List.mem_cons_of_mem _ hc
    · rwa [Function.update_of_ne ht] at hc
  · intro t
    rw [hheld]
    exact h.height t
  · intro t hw j id hid
    rw [hheld] at hid
    exact h.stored t hw j id hid

/-- A return with a record: the counter is lowered and the slot below it
cleared, which is that of the call or one that no call since then uses. -/
theorem leave_recorded (h : Settled S since w) {tid : UInt32} {hit : Hit} {call : OpenCall}
    {rest : List OpenCall} (hstack : w.machine.callStacks tid = call :: rest)
    (hlive : S.returnLive (w.atReturn tid) call.off = true) (hres : hit.reserved.isSome = true)
    (hsmall : w.machine.next ≤ 2 ^ 31)
    (hheld : w.machine.heldSince since tid = [] ∧ call.id < since ∨
      w.machine.heldSince since tid =
        call.id :: (w.machine.leave S (w.atReturn tid) tid hit).heldSince since tid) :
    Settled S since (w.act S (.leave tid hit)) := by
  obtain ⟨raw, hraw⟩ := Option.isSome_iff_exists.mp hres
  have hsound := h.toSound.leave tid hit
  have hself : w.machine.heldSince since tid = _ :=
    Machine.heldSince_leave_self S (w.atReturn tid) hit hstack
  have hother {t : UInt32} (ht : t ≠ tid) :
      (w.machine.leave S (w.atReturn tid) tid hit).heldSince since t =
        w.machine.heldSince since t := Machine.heldSince_leave_ne ht
  have hcount := h.counter tid
  have hnone (hin : w.machine.heldSince since tid = [] ∧ call.id < since) :
      (w.machine.leave S (w.atReturn tid) tid hit).heldSince since tid = [] := by
    rwa [decide_eq_false (Nat.not_le.mpr hin.2), Bool.and_false, if_neg Bool.false_ne_true,
      hin.1, eq_comm] at hself
  have hpos (hin : w.machine.heldSince since tid =
      call.id :: (w.machine.leave S (w.atReturn tid) tid hit).heldSince since tid) :
      ((w.machine.leave S (w.atReturn tid) tid hit).heldSince since tid).length + 1 ≤
        (DepthMap.count w.machine.depth tid).toNat ∧ w.machine.depth.Accepts tid := by
    have hheight := h.height tid
    rw [hin, List.length_cons] at hheight
    refine ⟨hheight, ?_⟩
    apply DepthMap.accepts_of_count_pos
    intro hzero
    rw [hzero, UInt32.toNat_zero] at hheight
    omega
  simp only [Attaching.act] at hsound ⊢
  rw [Machine.leave_recorded raw hstack hlive hraw] at hsound hheld hother hnone hpos ⊢
  set nd := Machine.dropOne (DepthMap.count w.machine.depth tid) with hnd
  have hlow : nd.toNat = (DepthMap.count w.machine.depth tid).toNat - 1 := dropOne_toNat _
  refine ⟨hsound, h.since_le, ?_, ?_, ?_, ?_⟩
  · intro t c hc hid
    apply h.flags t c _ hid
    simp only at hc
    by_cases ht : t = tid
    · subst ht
      rw [Function.update_self] at hc
      rw [hstack]
      exact List.mem_cons_of_mem _ hc
    · rwa [Function.update_of_ne ht] at hc
  · intro t
    by_cases ht : t = tid
    · subst ht
      rcases hheld with hin | hin
      · rw [hnone hin]
        exact Nat.zero_le _
      · obtain ⟨hle, hacc⟩ := hpos hin
        simp only
        rw [DepthMap.count_update_self _ _ _ hacc, hlow]
        exact Nat.le_sub_one_of_lt hle
    · rw [hother ht]
      simp only
      rw [DepthMap.count_update_ne _ _ ht]
      exact h.height t
  · intro t hw j id hid d hd hlt
    simp only at hd ⊢
    rw [provenance_concat, provenanceStep_return]
    by_cases ht : t = tid
    · subst ht
      rcases hheld with hin | hin
      · rw [hnone hin] at hid
        cases hid
      · obtain ⟨hle, hacc⟩ := hpos hin
        rw [DepthMap.count_update_self _ _ _ hacc, hlow] at hd
        have hrow : provenance S w.machine.ring (t.toInt32, d.toInt32) = some id := by
          apply h.stored t hw (j + 1) id _ d (by omega) hlt
          rw [hin, List.getElem?_cons_succ]
          exact hid
        split
        · rw [Function.update_of_ne]
          · exact hrow
          · intro heq
            have hsame := toInt32_injective (Prod.mk.inj heq).2
            rw [hsame, hlow] at hd
            omega
        · exact hrow
    · rw [hother ht] at hid
      rw [DepthMap.count_update_ne _ _ ht] at hd
      have hrow := h.stored t hw j id hid d hd hlt
      split
      · rw [update_row_ne (toInt32_injective.ne ht)]
        exact hrow
      · exact hrow
  · apply pairsOwnSince_concat h.own
    intro _ hw hid
    rcases hheld with hin | hin
    · exact absurd hin.2 (Nat.not_lt.mpr hid)
    · obtain ⟨hle, -⟩ := hpos hin
      have hfit : nd.toNat < 2 ^ 31 := by omega
      have hw' : watched S.cfg tid = true := hw
      rw [pairedWith_return, hw', Bool.true_and, if_pos (decide_eq_true hfit)]
      apply h.stored tid hw' 0 call.id _ nd (by omega) hfit
      rw [hin, List.getElem?_cons_zero]

/-- With settled probes a return of a call entered since then is recorded
exactly if the call is counted; any other return leaves the calls since then
alone. -/
theorem leave (h : Settled S since w) (tid : UInt32) (hit : Hit)
    (hres : hit.reserved.isSome = true) (hsmall : w.machine.next ≤ 2 ^ 31) :
    Settled S since (w.act S (.leave tid hit)) := by
  cases hstack : w.machine.callStacks tid with
  | nil =>
      simp only [Attaching.act, Machine.leave_idle hstack]
      exact h
  | cons call rest =>
      have hself : w.machine.heldSince since tid = _ :=
        Machine.heldSince_leave_self S (w.atReturn tid) hit hstack
      have hmem : call ∈ w.machine.callStacks tid := by
        rw [hstack]
        exact List.mem_cons_self
      have hhooked := h.returnLive_eq hstack
      by_cases hlive : S.returnLive (w.atReturn tid) call.off = true
      · apply h.leave_recorded hstack hlive hres hsmall
        by_cases hid : since ≤ call.id
        · right
          have hcounted : call.counted = true := by
            rw [h.flags tid call hmem hid, ← hhooked]
            exact hlive
          rwa [hcounted, decide_eq_true hid, Bool.and_self, if_pos rfl] at hself
        · exact Or.inl ⟨h.held_of_old hstack (by omega), by omega⟩
      · apply h.leave_silent hstack (fun hboth => hlive hboth.1)
        intro t
        by_cases ht : t = tid
        · subst ht
          by_cases hid : since ≤ call.id
          · have hcounted : call.counted = false := by
              rw [h.flags t call hmem hid, ← hhooked]
              exact Bool.eq_false_iff.mpr hlive
            rw [hcounted, Bool.false_and, if_neg Bool.false_ne_true] at hself
            exact hself.symm
          · rw [decide_eq_false hid, Bool.and_false, if_neg Bool.false_ne_true] at hself
            exact hself.symm
        · exact Machine.heldSince_leave_ne ht

end Settled

theorem settled_run (S : Session) (before : List AttachMove) (acts : List Action)
    (hmatched : S.Matched (Attaching.run S .start before).live)
    (hreserved : ∀ a ∈ acts, a.hit.reserved.isSome = true)
    (hthreads : ((actionsOf before ++ acts).map Action.tid).dedup.length ≤ 4096)
    (hshort : (actionsOf before).length + acts.length ≤ 2 ^ 31) :
    ∀ first, first <+: acts →
      Settled S (Attaching.run S .start before).machine.next
        (Attaching.run S .start (before ++ first.map .act)) ∧
      (Attaching.run S .start (before ++ first.map .act)).live =
        (Attaching.run S .start before).live := by
  intro first
  induction first using List.reverseRecOn with
  | nil =>
      intro _
      rw [List.map_nil, List.append_nil]
      exact ⟨Settled.now (Attaching.sound_run (Attaching.sound_start S) before), rfl⟩
  | append_singleton first a ih =>
      intro hwithin
      obtain ⟨hsettled, hlive⟩ := ih ((List.prefix_append _ _).trans hwithin)
      have hin : a ∈ acts := hwithin.subset (by simp)
      have hnext := Attaching.next_run_le S .start (before ++ first.map .act)
      have hlen := hwithin.length_le
      rw [Attaching.actionsOf_append, List.length_append] at hnext
      rw [List.length_append, List.length_singleton] at hlen
      have hzero : Attaching.start.machine.next = 0 := rfl
      rw [Attaching.run_append] at hsettled hlive hnext ⊢
      rw [Attaching.run_act_concat, Attaching.act_live]
      refine ⟨?_, hlive⟩
      cases a with
      | leave tid hit => exact hsettled.leave tid hit (hreserved _ hin) (by omega)
      | enter tid off hit =>
          apply hsettled.enter tid off hit (hlive ▸ hmatched) (hreserved _ hin) _ (by omega)
          rw [← Attaching.run_append]
          have hmoves : before ++ first.map .act <+: before ++ acts.map .act :=
            (List.prefix_append_right_inj _).mpr
              (((List.prefix_append _ _).trans hwithin).map _)
          rw [← Attaching.actionsOf_append] at hthreads
          exact Attaching.accepts_of_threads S hthreads hmoves
            (List.mem_append_right _ (List.mem_map_of_mem hin))

/-- Whatever happened while the probes were attached, in whatever order, with
whatever losses and calls left open: from the moment on at which every tracked
offset has both its probes or neither, if nothing is lost any more, every
return of a call entered from then on is paired with this call. -/
theorem attachment_settles (S : Session) (before : List AttachMove) (acts : List Action)
    (hmatched : S.Matched (Attaching.run S .start before).live)
    (hreserved : ∀ a ∈ acts, a.hit.reserved.isSome = true)
    (hthreads : ((actionsOf before ++ acts).map Action.tid).dedup.length ≤ 4096)
    (hshort : (actionsOf before).length + acts.length ≤ 2 ^ 31) :
    PairsOwnSince S (Attaching.run S .start before).machine.next
      (Attaching.run S .start (before ++ acts.map .act)).machine.ring :=
  (settled_run S before acts hmatched hreserved hthreads hshort acts List.prefix_rfl).1.own

/-! ### What the window costs -/

namespace Attaching

/-- The entry of a call that `up_all` counts and `up_ret` will not see. -/
def leaks (S : Session) (t : UInt32) (w : Attaching) : AttachMove → Bool
  | .act (.enter tid off hit) =>
    decide (tid = t) &&
      (Machine.counts S w.live w.machine tid off hit && !S.returnLive w.live off)
  | _ => false

/-- The number of such calls of a thread. -/
def leaked (S : Session) (t : UInt32) : Attaching → List AttachMove → Nat
  | _, [] => 0
  | w, mv :: rest => (leaks S t w mv).toNat + leaked S t (w.step S mv) rest

theorem leaked_concat (S : Session) (t : UInt32) (w : Attaching) (moves : List AttachMove)
    (mv : AttachMove) : leaked S t w (moves ++ [mv]) =
      leaked S t w moves + (leaks S t (run S w moves) mv).toNat := by
  induction moves generalizing w with
  | nil => simp [leaked, run]
  | cons first rest ih =>
      have hrun : run S w (first :: rest) = run S (w.step S first) rest := rfl
      rw [List.cons_append, leaked, leaked, ih, hrun, Nat.add_assoc]

/-- The open calls of a thread that `up_ret` will see. -/
def openHooked (w : Attaching) (t : UInt32) : Nat :=
  (w.machine.callStacks t).countP (w.hooked ·.id)

/-- `up_ret` is attached to an offset after `up_all`. -/
def EntryFirst (w : Attaching) : AttachMove → Prop
  | .attachRet off => w.live.uprobe off = true
  | _ => True

/-- The counter of a thread is the number of its open calls that `up_ret` will
see and of the calls that it missed. -/
structure Shifted (S : Session) (leak : UInt32 → Nat) (w : Attaching) : Prop extends
    Sound S w where
  order : ∀ off, w.live.uretprobe off = true → w.live.uprobe off = true
  count : ∀ t, (DepthMap.count w.machine.depth t).toNat = leak t + w.openHooked t

namespace Shifted

variable {S : Session} {leak : UInt32 → Nat} {w : Attaching}

theorem enter (h : Shifted S leak w) (tid : UInt32) (off : UInt64) (hit : Hit)
    (hoffsets : S.retOffsets.length ≤ 8192) (hres : hit.reserved.isSome = true)
    (hacc : w.machine.depth.Accepts tid) (hsmall : w.machine.next < 2 ^ 31) :
    Shifted S (fun t => leak t + (leaks S t w (.act (.enter tid off hit))).toNat)
      (w.act S (.enter tid off hit)) := by
  have hlive (hret : S.returnLive w.live off = true) :
      Machine.counts S w.live w.machine tid off hit = true := by
    rw [Session.returnLive, Bool.and_eq_true] at hret
    have htracked : S.tracked off = true := hret.1
    rw [Machine.counts_iff, Session.entryLive, h.order off hret.2, Bool.and_true,
      S.hasret_eq_tracked hoffsets]
    exact ⟨decide_eq_true (S.mem_offsets_of_tracked htracked), hres, htracked, hacc⟩
  have hroom := h.counter tid
  refine ⟨h.toSound.enter tid off hit, h.order, ?_⟩
  intro t
  have hold : (w.machine.callStacks t).countP
      (fun c => Function.update w.hooked w.machine.next (S.returnLive w.live off) c.id) =
        w.openHooked t := by
    apply List.countP_congr
    intro c hc
    rw [Function.update_of_ne (h.labelled.fresh t c hc).ne]
  simp only [act, openHooked, leaks, Machine.stacks_enter]
  by_cases ht : t = tid
  · subst ht
    rw [Machine.count_enter, Function.update_self, List.countP_cons, hold, Function.update_self]
    cases hret : S.returnLive w.live off with
    | true =>
        rw [hlive hret, if_pos rfl, UInt32.toNat_add, h.count]
        have hcount := h.count t
        simp only [decide_true, Bool.not_true, Bool.and_false, Bool.toNat_false, if_true,
          UInt32.toNat_one]
        omega
    | false =>
        have hcount := h.count t
        cases hc : Machine.counts S w.live w.machine t off hit with
        | true =>
            simp only [decide_true, Bool.not_false, Bool.and_true, Bool.toNat_true, if_true,
              UInt32.toNat_add, UInt32.toNat_one, Bool.false_eq_true, if_false]
            omega
        | false =>
            simp only [Bool.false_and, Bool.and_false, Bool.toNat_false, Bool.false_eq_true,
              if_false]
            omega
  · rw [Machine.count_enter_ne ht, Function.update_of_ne ht, hold, h.count,
      decide_eq_false (Ne.symm ht), Bool.false_and, Bool.toNat_false, Nat.add_zero]

theorem leave (h : Shifted S leak w) (tid : UInt32) (hit : Hit)
    (hres : hit.reserved.isSome = true) :
    Shifted S leak (w.act S (.leave tid hit)) := by
  refine ⟨h.toSound.leave tid hit, h.order, ?_⟩
  cases hstack : w.machine.callStacks tid with
  | nil =>
      simp only [act, Machine.leave_idle hstack]
      exact h.count
  | cons call rest =>
      obtain ⟨raw, hraw⟩ := Option.isSome_iff_exists.mp hres
      have hhooked := h.returnLive_eq hstack
      have hown := h.count tid
      rw [openHooked, hstack, List.countP_cons] at hown
      intro t
      simp only [act]
      cases hh : w.hooked call.id with
      | true =>
          rw [hh] at hhooked hown
          rw [Machine.leave_recorded raw hstack hhooked hraw]
          by_cases ht : t = tid
          · subst ht
            have hacc : w.machine.depth.Accepts t := by
              apply DepthMap.accepts_of_count_pos
              intro hzero
              rw [hzero, UInt32.toNat_zero, if_pos rfl] at hown
              omega
            simp only [openHooked]
            rw [DepthMap.count_update_self _ _ _ hacc, dropOne_toNat, Function.update_self, hown,
              if_pos rfl]
            omega
          · simp only [openHooked]
            rw [DepthMap.count_update_ne _ _ ht, Function.update_of_ne ht]
            exact h.count t
      | false =>
          rw [hh] at hhooked hown
          have hsilent : ¬ (S.returnLive (w.atReturn tid) call.off = true ∧
              hit.reserved.isSome = true) := by
            rw [hhooked]
            exact fun hboth => Bool.false_ne_true hboth.1
          rw [Machine.leave_silent hstack hsilent]
          by_cases ht : t = tid
          · subst ht
            simp only [openHooked]
            rw [Function.update_self, hown]
            rfl
          · simp only [openHooked]
            rw [Function.update_of_ne ht]
            exact h.count t

theorem attach (h : Shifted S leak w) (off : UInt64) : Shifted S leak (w.step S (.attach off)) := by
  refine ⟨h.toSound.step (.attach off), ?_, h.count⟩
  intro o ho
  simp only [step, Function.update_apply]
  split
  · rfl
  · exact h.order o ho

theorem attachRet (h : Shifted S leak w) {off : UInt64} (hfirst : w.live.uprobe off = true) :
    Shifted S leak (w.step S (.attachRet off)) := by
  refine ⟨h.toSound.step (.attachRet off), ?_, h.count⟩
  intro o ho
  simp only [step, Function.update_apply] at ho
  split at ho
  · rename_i heq
    rw [heq]
    exact hfirst
  · exact h.order o ho

end Shifted

theorem shifted_run {S : Session} {moves : List AttachMove} (hoffsets : S.retOffsets.length ≤ 8192)
    (horder : Runs.Along (step S) EntryFirst start moves)
    (hreserved : ∀ a ∈ actionsOf moves, a.hit.reserved.isSome = true)
    (hthreads : ((actionsOf moves).map Action.tid).dedup.length ≤ 4096)
    (hshort : (actionsOf moves).length ≤ 2 ^ 31) :
    ∀ first, first <+: moves →
      Shifted S (fun t => leaked S t start first) (run S start first) := by
  intro first
  induction first using List.reverseRecOn with
  | nil =>
      intro _
      refine ⟨sound_start S, fun off h => h, ?_⟩
      intro t
      simp [run, start, Machine.start, DepthMap.count_empty, leaked, openHooked]
  | append_singleton first mv ih =>
      intro hwithin
      have hbefore : first <+: moves := (List.prefix_append _ _).trans hwithin
      have h := ih hbefore
      have hmem : mv ∈ moves := hwithin.subset (by simp)
      have hnext := next_run_le S start first
      have hlen := (actionsOf_within hbefore).length_le
      have hzero : start.machine.next = 0 := rfl
      simp only [leaked_concat]
      rw [run_concat]
      cases mv with
      | attach off => exact h.attach off
      | attachRet off =>
          rw [Runs.along_iff_prefix] at horder
          exact h.attachRet (horder first (.attachRet off) hwithin)
      | act a =>
          have hres := hreserved a (List.mem_filterMap.mpr ⟨.act a, hmem, rfl⟩)
          cases a with
          | leave tid hit => exact h.leave tid hit hres
          | enter tid off hit =>
              have hlast := (actionsOf_within hwithin).length_le
              have hone : (actionsOf (first ++ [.act (.enter tid off hit)])).length =
                  (actionsOf first).length + 1 := by
                rw [actionsOf, List.filterMap_append, List.length_append]
                rfl
              exact h.enter tid off hit hoffsets hres
                (accepts_of_threads S hthreads hbefore hmem) (by omega)

end Attaching

/-- With `up_all` attached to an offset before `up_ret`, as `runProbe` does, and
nothing lost, a tracked call is recorded at the number of open calls whose
return will be seen, shifted for good by the calls that its thread entered
between the two attachments. -/
theorem attachment_shifts_depth (S : Session) (moves : List AttachMove)
    (hoffsets : S.retOffsets.length ≤ 8192)
    (horder : Runs.Along (Attaching.step S) Attaching.EntryFirst .start moves)
    (hreserved : ∀ a ∈ actionsOf moves, a.hit.reserved.isSome = true)
    (hthreads : ((actionsOf moves).map Action.tid).dedup.length ≤ 4096)
    (hshort : (actionsOf moves).length ≤ 2 ^ 31) :
    ∀ before tid off hit, before ++ [.act (.enter tid off hit)] <+: moves →
      S.tracked off = true → (Attaching.run S .start before).live.uprobe off = true →
        ∃ r, (Attaching.run S .start (before ++ [.act (.enter tid off hit)])).machine.ring =
            (Attaching.run S .start before).machine.ring ++ [r] ∧
          r.evt.depth.toInt = ((Attaching.leaked S tid .start before +
            (Attaching.run S .start before).openHooked tid : Nat) : Int) := by
  intro before tid off hit hwithin htracked hlive
  have hbefore : before <+: moves := (List.prefix_append _ _).trans hwithin
  have hact : .act (.enter tid off hit) ∈ moves := hwithin.subset (by simp)
  have hshifted := Attaching.shifted_run hoffsets horder hreserved hthreads hshort before hbefore
  have hcount := hshifted.count tid
  have hsmall := hshifted.counter tid
  have hnext := Attaching.next_run_le S .start before
  have hlen := (Attaching.actionsOf_within hwithin).length_le
  have hone : (actionsOf (before ++ [.act (.enter tid off hit)])).length =
      (actionsOf before).length + 1 := by
    rw [actionsOf, List.filterMap_append, List.length_append]
    rfl
  have hzero : Attaching.start.machine.next = 0 := rfl
  obtain ⟨raw, hraw⟩ := Option.isSome_iff_exists.mp
    (hreserved (.enter tid off hit) (List.mem_filterMap.mpr ⟨.act (.enter tid off hit), hact, rfl⟩))
  have hentry : S.entryLive (Attaching.run S .start before).live off = true := by
    rw [Session.entryLive, hlive, Bool.and_true]
    exact decide_eq_true (S.mem_offsets_of_tracked htracked)
  have hhas : S.hasret off = true := by
    rw [S.hasret_eq_tracked hoffsets]
    exact htracked
  refine ⟨Machine.enterRecord S (Attaching.run S .start before).machine tid off hit raw, ?_, ?_⟩
  · rw [Attaching.run_concat]
    have hraw' : hit.reserved = some raw := hraw
    simp only [Attaching.step, Attaching.act, Machine.enter_recorded raw hentry hraw']
  · rw [Machine.entryEvt_depth_at, hhas, if_pos rfl, toInt32_toInt, if_pos (by omega), hcount]

namespace Scenario

/-- A thread makes calls while the probes are attached. -/
def earlyCalls : List AttachMove :=
  [.act (.enter 1 0 plainHit), .attach 0, .act (.enter 1 0 plainHit), .attachRet 0,
    .act (.leave 1 plainHit)]

/-- The second call is counted and its return missed: one leaks. -/
example : Attaching.leaked oneOffset 1 .start earlyCalls = 1 := by decide +kernel

def lateCalls : List Action :=
  [.enter 1 0 plainHit, .leave 1 plainHit, .leave 1 plainHit]

theorem retOffsets_oneOffset : oneOffset.retOffsets = [0] := retOffsets_manyOffsets 1 (by decide)

theorem tracked_zero {off : UInt64} (h : oneOffset.tracked off = true) : off = 0 := by
  rw [Session.tracked, retOffsets_oneOffset] at h
  simpa using h

theorem matched_earlyCalls :
    oneOffset.Matched (Attaching.run oneOffset .start earlyCalls).live := by
  apply Session.matched_of_attached
  · rw [retOffsets_oneOffset]
    decide
  · intro off htracked
    rw [tracked_zero htracked]
    exact ⟨rfl, rfl⟩

end Scenario

open Scenario in
theorem earlyCalls_settle : ∃ r,
    (Attaching.run oneOffset .start (earlyCalls ++ lateCalls.map .act)).machine.ring[2]? = some r ∧
      pairedWith oneOffset ((Attaching.run oneOffset .start
        (earlyCalls ++ lateCalls.map .act)).machine.ring.take 2) r = some 2 := by
  have h := attachment_settles oneOffset earlyCalls lateCalls matched_earlyCalls
    (by decide) (by decide) (by decide)
  exact ⟨_, rfl, h 2 _ rfl rfl rfl (Nat.le_refl 2)⟩

open Scenario in
theorem earlyCalls_shift : ∃ r,
    (Attaching.run oneOffset .start
      (earlyCalls ++ [.act (.enter 1 0 plainHit)])).machine.ring =
        (Attaching.run oneOffset .start earlyCalls).machine.ring ++ [r] ∧
      r.evt.depth.toInt = 1 := by
  have hsum : Attaching.leaked oneOffset 1 .start earlyCalls +
      (Attaching.run oneOffset .start earlyCalls).openHooked 1 = 1 := by decide +kernel
  have htracked : oneOffset.tracked 0 = true := by
    rw [Session.tracked, retOffsets_oneOffset]
    rfl
  have hoffsets : oneOffset.retOffsets.length ≤ 8192 := by
    rw [retOffsets_oneOffset]
    decide
  have horder : Runs.Along (Attaching.step oneOffset) Attaching.EntryFirst .start
      (earlyCalls ++ [.act (.enter 1 0 plainHit)]) :=
    ⟨trivial, trivial, trivial, rfl, trivial, trivial, trivial⟩
  obtain ⟨r, hring, hdepth⟩ := attachment_shifts_depth oneOffset
    (earlyCalls ++ [.act (.enter 1 0 plainHit)]) hoffsets horder (by decide) (by decide) (by decide)
    earlyCalls 1 0 plainHit List.prefix_rfl htracked rfl
  refine ⟨r, hring, ?_⟩
  rw [hdepth, hsum]
  rfl

end JniProbe
