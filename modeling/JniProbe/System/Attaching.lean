import JniProbe.System.Labels
import JniProbe.System.Monitored

/-!
The target runs while `runProbe` attaches its probes one by one. The maps are
full by then, so `up_all` counts a tracked call from the moment its own probe
is live; `up_ret` sees the return of a call only if it was live when the call
was entered, since it is then that the kernel replaces the return address. A
call entered in between is counted and never discounted.
-/

namespace JniProbe

inductive AttachMove where
  | attach (off : UInt64)
  | attachRet (off : UInt64)
  | act (a : Action)

/-- The probes that are live, the calls whose return address is replaced, by
serial number, and the machine. -/
structure Attaching where
  live : Attachment
  hooked : Nat → Bool
  machine : Machine

namespace Attaching

def start : Attaching := ⟨⟨fun _ => false, fun _ => false⟩, fun _ => false, Machine.start⟩

/-- What the innermost call of a thread meets when it returns. -/
def atReturn (w : Attaching) (tid : UInt32) : Attachment :=
  { w.live with uretprobe := fun _ => (w.machine.callStacks tid).head?.any (w.hooked ·.id) }

def act (S : Session) (w : Attaching) : Action → Attaching
  | .enter tid off hit =>
    { w with
      hooked := Function.update w.hooked w.machine.next (S.returnLive w.live off)
      machine := w.machine.enter S w.live tid off hit }
  | .leave tid hit => { w with machine := w.machine.leave S (w.atReturn tid) tid hit }

def step (S : Session) (w : Attaching) : AttachMove → Attaching
  | .attach off =>
    { w with live := { w.live with uprobe := Function.update w.live.uprobe off true } }
  | .attachRet off =>
    { w with live := { w.live with uretprobe := Function.update w.live.uretprobe off true } }
  | .act a => act S w a

def run (S : Session) (w : Attaching) (moves : List AttachMove) : Attaching :=
  Runs.run (step S) w moves

end Attaching

def AttachMove.action : AttachMove → Option Action
  | .act a => some a
  | _ => none

/-- What the target does meanwhile. -/
def actionsOf (moves : List AttachMove) : List Action := moves.filterMap AttachMove.action

namespace Attaching

theorem run_concat (S : Session) (w : Attaching) (moves : List AttachMove) (mv : AttachMove) :
    run S w (moves ++ [mv]) = step S (run S w moves) mv :=
  Runs.run_concat (step S) w moves mv

theorem run_append (S : Session) (w : Attaching) (first second : List AttachMove) :
    run S w (first ++ second) = run S (run S w first) second :=
  Runs.run_append (step S) w first second

theorem actionsOf_append (first : List AttachMove) (acts : List Action) :
    actionsOf (first ++ acts.map .act) = actionsOf first ++ acts := by
  rw [actionsOf, List.filterMap_append, List.filterMap_map]
  exact congrArg (actionsOf first ++ ·) List.filterMap_some

theorem act_live (S : Session) (w : Attaching) (a : Action) : (w.act S a).live = w.live := by
  cases a <;> rfl

theorem run_act_concat (S : Session) (w : Attaching) (acts : List Action) (a : Action) :
    run S w ((acts ++ [a]).map .act) = act S (run S w (acts.map .act)) a := by
  rw [List.map_append, List.map_singleton, run_concat]
  rfl

/-! ### What holds whatever is attached -/

/-- Calls are numbered in the order in which they are entered, only `up_ret` at
a tracked offset hooks a call, and a counter is at most the number of calls. -/
structure Sound (S : Session) (w : Attaching) : Prop where
  labelled : Labelled w.machine
  sorted : ∀ t, (w.machine.callStacks t).Pairwise (fun a b => b.id < a.id)
  tracked : ∀ t, ∀ c ∈ w.machine.callStacks t, w.hooked c.id = true →
    S.retOffsets.contains c.off = true
  counter : ∀ t, (DepthMap.count w.machine.depth t).toNat ≤ w.machine.next

theorem sound_start (S : Session) : Sound S start where
  labelled := labelled_start
  sorted t := List.Pairwise.nil
  tracked t c hc := absurd hc List.not_mem_nil
  counter t := by simp [start, Machine.start, DepthMap.count_empty]

/-- `up_ret` runs at the return of the innermost call if the call is hooked. -/
theorem Sound.returnLive_eq {S : Session} {w : Attaching} (h : Sound S w) {tid : UInt32}
    {call : OpenCall} {rest : List OpenCall} (hstack : w.machine.callStacks tid = call :: rest) :
    S.returnLive (w.atReturn tid) call.off = w.hooked call.id := by
  have hat : S.returnLive (w.atReturn tid) call.off =
      (S.retOffsets.contains call.off && w.hooked call.id) := by
    simp [Session.returnLive, atReturn, hstack]
  rw [hat]
  cases hhooked : w.hooked call.id with
  | false => exact Bool.and_false _
  | true =>
      have hmem : call ∈ w.machine.callStacks tid := by
        rw [hstack]
        exact List.mem_cons_self
      rw [h.tracked tid call hmem hhooked, Bool.and_self]

end Attaching

/-! ### Counters are small -/

theorem DepthMap.count_update_le (depth : DepthMap) (tid v t : UInt32) {n : Nat}
    (hold : (DepthMap.count depth t).toNat ≤ n) (hv : v.toNat ≤ n) :
    (DepthMap.count (depth.update tid v) t).toNat ≤ n := by
  by_cases ht : t = tid
  · subst ht
    by_cases hacc : depth.Accepts t
    · rw [DepthMap.count_update_self _ _ _ hacc]
      exact hv
    · rw [BoundedMap.update_of_not_accepts _ _ _ hacc]
      exact hold
  · rw [DepthMap.count_update_ne _ _ ht]
    exact hold

theorem Machine.dropOne_le (d : UInt32) : (Machine.dropOne d).toNat ≤ d.toNat := by
  rw [JniProbe.dropOne_toNat]
  exact Nat.sub_le _ _

namespace Attaching

variable {S : Session} {w : Attaching}

theorem Sound.enter (h : Sound S w) (tid : UInt32) (off : UInt64) (hit : Hit) :
    Sound S (act S w (.enter tid off hit)) := by
  have hfresh {t : UInt32} {c : OpenCall} (hc : c ∈ w.machine.callStacks t) :
      c.id ≠ w.machine.next := (h.labelled.fresh t c hc).ne
  refine ⟨h.labelled.enter S w.live tid off hit, ?_, ?_, ?_⟩
  · intro t
    simp only [act, Machine.stacks_enter]
    by_cases ht : t = tid
    · subst ht
      rw [Function.update_self, List.pairwise_cons]
      exact ⟨h.labelled.fresh t, h.sorted t⟩
    · rw [Function.update_of_ne ht]
      exact h.sorted t
  · intro t c hc
    simp only [act, Machine.stacks_enter] at hc ⊢
    have hold (hc : c ∈ w.machine.callStacks t) :
        Function.update w.hooked w.machine.next (S.returnLive w.live off) c.id = true →
          S.retOffsets.contains c.off = true := by
      rw [Function.update_of_ne (hfresh hc)]
      exact h.tracked t c hc
    by_cases ht : t = tid
    · subst ht
      rw [Function.update_self, List.mem_cons] at hc
      rcases hc with rfl | hc
      · rw [Function.update_self, Session.returnLive, Bool.and_eq_true]
        exact And.left
      · exact hold hc
    · rw [Function.update_of_ne ht] at hc
      exact hold hc
  · intro t
    simp only [act, Machine.next_enter]
    have hcount := h.counter t
    rcases Machine.enter_cases S w.live w.machine tid off hit with
      ⟨-, hdepth⟩ | ⟨raw, -, -, -, hdepth⟩
    · rw [hdepth]
      omega
    · rw [hdepth]
      split
      · apply DepthMap.count_update_le _ _ _ _ (by omega)
        rw [UInt32.toNat_add, UInt32.toNat_one]
        have hown := h.counter tid
        have hmod := Nat.mod_le ((DepthMap.count w.machine.depth tid).toNat + 1) (2 ^ 32)
        omega
      · omega

theorem Sound.leave (h : Sound S w) (tid : UInt32) (hit : Hit) :
    Sound S (act S w (.leave tid hit)) := by
  cases hstack : w.machine.callStacks tid with
  | nil =>
      simp only [act, Machine.leave_idle hstack]
      exact h
  | cons call rest =>
      have hsub (t : UInt32) : ((w.machine.leave S (w.atReturn tid) tid hit).callStacks t).Sublist
          (w.machine.callStacks t) := by
        rw [Machine.stacks_leave hstack]
        by_cases ht : t = tid
        · subst ht
          rw [Function.update_self, hstack]
          exact List.sublist_cons_self _ _
        · rw [Function.update_of_ne ht]
      refine ⟨h.labelled.leave S _ tid hit, ?_, ?_, ?_⟩
      · intro t
        exact (h.sorted t).sublist (hsub t)
      · intro t c hc
        exact h.tracked t c ((hsub t).subset hc)
      · intro t
        simp only [act, Machine.next_leave]
        rcases Machine.leave_cases S (w.atReturn tid) w.machine tid hit with
          ⟨-, hdepth⟩ | ⟨-, -, raw, -, -, -, -, hdepth⟩
        · rw [hdepth]
          exact h.counter t
        · rw [hdepth]
          exact DepthMap.count_update_le _ _ _ _ (h.counter t)
            ((Machine.dropOne_le _).trans (h.counter tid))

theorem Sound.step (h : Sound S w) (mv : AttachMove) : Sound S (w.step S mv) := by
  cases mv with
  | attach off => exact ⟨h.labelled, h.sorted, h.tracked, h.counter⟩
  | attachRet off => exact ⟨h.labelled, h.sorted, h.tracked, h.counter⟩
  | act a =>
      cases a with
      | enter tid off hit => exact h.enter tid off hit
      | leave tid hit => exact h.leave tid hit

theorem sound_run (h : Sound S w) (moves : List AttachMove) : Sound S (run S w moves) := by
  induction moves generalizing w with
  | nil => exact h
  | cons mv rest ih => exact ih (h.step mv)

/-- There are at most as many calls as actions. -/
theorem next_run_le (S : Session) (w : Attaching) (moves : List AttachMove) :
    (run S w moves).machine.next ≤ w.machine.next + (actionsOf moves).length := by
  induction moves generalizing w with
  | nil => exact Nat.le_refl _
  | cons mv rest ih =>
      have hrest := ih (w.step S mv)
      have hrun : run S w (mv :: rest) = run S (w.step S mv) rest := rfl
      rw [hrun]
      cases mv with
      | attach off => exact hrest
      | attachRet off => exact hrest
      | act a =>
          have hlen : (actionsOf (.act a :: rest)).length = (actionsOf rest).length + 1 := rfl
          have hone : (w.step S (.act a)).machine.next ≤ w.machine.next + 1 := by
            cases a with
            | enter tid off hit => simp [step, act, Machine.next_enter]
            | leave tid hit => simp [step, act, Machine.next_leave]
          omega

/-- Only threads that act have a counter. -/
theorem mem_depth_run (S : Session) (moves : List AttachMove) {tid : UInt32}
    (h : tid ∈ (run S start moves).machine.depth.entries) :
    tid ∈ (actionsOf moves).map Action.tid := by
  induction moves using List.reverseRecOn with
  | nil => simp [run, start, Machine.start, BoundedMap.mem_iff_lookup] at h
  | append_singleton moves mv ih =>
      rw [run_concat] at h
      rw [actionsOf, List.filterMap_append, List.map_append, List.mem_append]
      cases mv with
      | attach off => exact Or.inl (ih h)
      | attachRet off => exact Or.inl (ih h)
      | act a =>
          have hcases : tid = a.tid ∨ tid ∈ (run S start moves).machine.depth.entries := by
            cases a with
            | enter t off hit => exact Machine.mem_depth_step S _ _ (.enter t off hit) tid h
            | leave t hit => exact Machine.mem_depth_step S _ _ (.leave t hit) tid h
          rcases hcases with rfl | hold
          · exact Or.inr List.mem_cons_self
          · exact Or.inl (ih hold)

theorem actionsOf_within {first moves : List AttachMove} (h : first <+: moves) :
    actionsOf first <+: actionsOf moves := h.filterMap _

/-- With at most 4096 threads in the run, the depth map accepts each of them. -/
theorem accepts_of_threads (S : Session) {moves first : List AttachMove}
    (hthreads : ((actionsOf moves).map Action.tid).dedup.length ≤ 4096) (hwithin : first <+: moves)
    {a : Action} (ha : .act a ∈ moves) : (run S start first).machine.depth.Accepts a.tid := by
  apply BoundedMap.accepts_of_subset _ ((actionsOf moves).map Action.tid) _ hthreads
  · exact List.mem_map_of_mem (List.mem_filterMap.mpr ⟨.act a, ha, rfl⟩)
  · intro t ht
    exact ((actionsOf_within hwithin).map Action.tid).subset (mem_depth_run S first ht)

/-! ### Probes that are attached before the first call -/

theorem run_probes (S : Session) (w : Attaching) {probes : List AttachMove}
    (h : actionsOf probes = []) : (run S w probes).machine = w.machine := by
  induction probes generalizing w with
  | nil => rfl
  | cons mv rest ih =>
      cases mv with
      | attach off => exact ih (w.step S (.attach off)) h
      | attachRet off => exact ih (w.step S (.attachRet off)) h
      | act a => cases h

theorem leave_congr {S : Session} {att att' : Attachment} {m : Machine} {tid : UInt32} {hit : Hit}
    (h : ∀ call rest, m.callStacks tid = call :: rest →
      S.returnLive att call.off = S.returnLive att' call.off) :
    m.leave S att tid hit = m.leave S att' tid hit := by
  cases hstack : m.callStacks tid with
  | nil => rw [Machine.leave_idle hstack, Machine.leave_idle hstack]
  | cons call rest => simp only [Machine.leave, hstack, h call rest hstack]

/-- When all attachments precede all calls, this is the machine with these
attachments. -/
theorem run_attached_first (S : Session) {probes : List AttachMove}
    (hprobes : actionsOf probes = []) (acts : List Action) :
    (run S start (probes ++ acts.map .act)).machine =
      Machine.run S (run S start probes).live acts := by
  suffices h : (run S start (probes ++ acts.map .act)).machine =
        Machine.run S (run S start probes).live acts ∧
      (run S start (probes ++ acts.map .act)).live = (run S start probes).live ∧
      ∀ t, ∀ c ∈ (run S start (probes ++ acts.map .act)).machine.callStacks t,
        (run S start (probes ++ acts.map .act)).hooked c.id =
          S.returnLive (run S start probes).live c.off from h.1
  have hsound (first : List Action) : Sound S (run S start (probes ++ first.map .act)) :=
    sound_run (sound_start S) _
  simp only [run_append] at hsound ⊢
  induction acts using List.reverseRecOn with
  | nil =>
      refine ⟨run_probes S start hprobes, rfl, ?_⟩
      intro t c hc
      rw [List.map_nil, run, Runs.run_nil, run_probes S start hprobes] at hc
      cases hc
  | append_singleton acts a ih =>
      obtain ⟨hmachine, hlive, hhooked⟩ := ih
      rw [run_act_concat, Machine.run_concat, act_live]
      refine ⟨?_, hlive, ?_⟩
      · cases a with
        | enter tid off hit => simp only [act, Machine.step, hmachine, hlive]
        | leave tid hit =>
            simp only [act, Machine.step, ← hmachine]
            apply leave_congr
            intro call rest hstack
            rw [(hsound acts).returnLive_eq hstack]
            apply hhooked tid call
            rw [hstack]
            exact List.mem_cons_self
      · intro t c hc
        cases a with
        | enter tid off hit =>
            simp only [act, Machine.stacks_enter] at hc ⊢
            have hold (hc : c ∈ (run S (run S start probes) (acts.map .act)).machine.callStacks t) :
                Function.update (run S (run S start probes) (acts.map .act)).hooked
                  (run S (run S start probes) (acts.map .act)).machine.next
                  (S.returnLive (run S (run S start probes) (acts.map .act)).live off) c.id =
                    S.returnLive (run S start probes).live c.off := by
              rw [Function.update_of_ne ((hsound acts).labelled.fresh t c hc).ne]
              exact hhooked t c hc
            by_cases ht : t = tid
            · subst ht
              rw [Function.update_self, List.mem_cons] at hc
              rcases hc with rfl | hc
              · rw [Function.update_self, hlive]
              · exact hold hc
            · rw [Function.update_of_ne ht] at hc
              exact hold hc
        | leave tid hit =>
            apply hhooked t c
            simp only [act] at hc
            cases hstack : (run S (run S start probes) (acts.map .act)).machine.callStacks tid with
            | nil => rwa [Machine.leave_idle hstack] at hc
            | cons call rest =>
                rw [Machine.stacks_leave hstack] at hc
                by_cases ht : t = tid
                · subst ht
                  rw [Function.update_self] at hc
                  rw [hstack]
                  exact List.mem_cons_of_mem _ hc
                · rwa [Function.update_of_ne ht] at hc

end Attaching

end JniProbe
