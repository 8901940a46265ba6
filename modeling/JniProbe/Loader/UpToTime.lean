import JniProbe.Loader.Commands
import JniProbe.Loader.Reads

/-!
Handling records up to their time stamps. A time shows in a line as the
duration of a call only, so two trackers that differ in the times of their
frames stay so, and emit the same lines but for durations.
-/

namespace JniProbe

open GoText GoFormat

def Frame.SameButTime (fr fr' : Frame) : Prop := fr = { fr' with ts := fr.ts }

structure Tracker.SameButTime (t t' : Tracker) : Prop where
  caches : t.caches = t'.caches
  frames : ∀ k, Option.Rel Frame.SameButTime (t.frames k) (t'.frames k)

/-- Two lines that differ in the duration of a call at most. -/
inductive SameLine : Bytes → Bytes → Prop where
  | same (line : Bytes) : SameLine line line
  | took (text : Bytes) (d d' : UInt64) :
    SameLine (text ++ str "  (" ++ millis d ++ str " ms)")
      (text ++ str "  (" ++ millis d' ++ str " ms)")

/-- Two surroundings of a record that show the loader the same. -/
structure Env.Same (env env' : Env) : Prop where
  mr : env.mr = env'.mr
  moduleOf : env.moduleOf = env'.moduleOf
  filters : env.filters.Same env'.filters

theorem Frame.SameButTime.rfl {fr : Frame} : fr.SameButTime fr := Eq.refl fr

theorem Frame.SameButTime.setCall {fr fr' : Frame} (h : fr.SameButTime fr') (call : Bytes) :
    ({ fr with call := call } : Frame).SameButTime { fr' with call := call } := by
  unfold Frame.SameButTime at h ⊢
  rw [h]

theorem sameFrames_update {frames frames' : Key → Option Frame}
    (h : ∀ k, Option.Rel Frame.SameButTime (frames k) (frames' k)) (key : Key)
    {o o' : Option Frame} (ho : Option.Rel Frame.SameButTime o o') (k : Key) :
    Option.Rel Frame.SameButTime (Function.update frames key o k)
      (Function.update frames' key o' k) := by
  by_cases hk : k = key
  · subst hk
    rw [Function.update_self, Function.update_self]
    exact ho
  · rw [Function.update_of_ne hk, Function.update_of_ne hk]
    exact h k

theorem sameFrames_setCall {frames frames' : Key → Option Frame}
    (h : ∀ k, Option.Rel Frame.SameButTime (frames k) (frames' k)) (key : Key) (call : Bytes)
    (k : Key) : Option.Rel Frame.SameButTime (setCall frames key call k)
      (setCall frames' key call k) := by
  unfold setCall
  have hkey := h key
  cases hfr : frames key with
  | none =>
      cases hfr' : frames' key with
      | none => exact h k
      | some fr' => rw [hfr, hfr'] at hkey; cases hkey
  | some fr =>
      cases hfr' : frames' key with
      | none => rw [hfr, hfr'] at hkey; cases hkey
      | some fr' =>
          rw [hfr, hfr'] at hkey
          cases hkey with
          | some hsame => exact sameFrames_update h key (.some (hsame.setCall call)) k

section Handling

variable {S S' : Session} {env env' : Env} {t t' : Tracker} {e e' : Evt}

/-- The lines of two returns agree but for the durations. -/
theorem returnLine_sameButTime (hcfg : S.cfg = S'.cfg) (henv : env.Same env')
    (hdepth : e.depth = e'.depth) (hrc : e.rc = e'.rc) {fr fr' : Frame}
    (hfr : fr.SameButTime fr') (cs : Caches) :
    Option.Rel SameLine (returnLine S env e fr cs) (returnLine S' env' e' fr' cs) := by
  have heq : fr = { fr' with ts := fr.ts } := hfr
  have hslot : fr.slot = fr'.slot := by rw [heq]
  have hcall : fr.call = fr'.call := by rw [heq]
  have hcaller : fr.caller = fr'.caller := by rw [heq]
  unfold returnLine
  rw [hslot, hcall, hcaller, hcfg, hdepth, hrc, henv.mr, henv.filters.matchSlot]
  split
  · split
    · exact .none
    · dsimp only
      rw [henv.filters.matchLine]
      split
      · exact .some (.took _ _ _)
      · exact .none
  · exact .none

theorem handleReturn_sameButTime (hcfg : S.cfg = S'.cfg) (henv : env.Same env')
    (ht : t.SameButTime t') (htid : e.tid = e'.tid) (hdepth : e.depth = e'.depth)
    (hrc : e.rc = e'.rc) :
    (handleReturn S env t e).1.SameButTime (handleReturn S' env' t' e').1 ∧
      Option.Rel SameLine (handleReturn S env t e).2 (handleReturn S' env' t' e').2 := by
  unfold handleReturn
  rw [← htid, ← hdepth]
  split
  · exact ⟨ht, .none⟩
  · dsimp only
    have hkey := ht.frames (e.tid.toInt32, e.depth)
    cases hfr : t.frames (e.tid.toInt32, e.depth) with
    | none =>
        cases hfr' : t'.frames (e.tid.toInt32, e.depth) with
        | none => exact ⟨ht, .none⟩
        | some fr' => rw [hfr, hfr'] at hkey; cases hkey
    | some fr =>
        cases hfr' : t'.frames (e.tid.toInt32, e.depth) with
        | none => rw [hfr, hfr'] at hkey; cases hkey
        | some fr' =>
            rw [hfr, hfr'] at hkey
            cases hkey with
            | some hsame =>
                have hlearn : learn env.mr fr e.rc t.caches =
                    learn env'.mr fr' e'.rc t'.caches := by
                  rw [henv.mr, hrc, ht.caches, hsame]
                  rfl
                dsimp only
                rw [hlearn]
                constructor
                · exact ⟨rfl, sameFrames_update ht.frames _ .none⟩
                · exact returnLine_sameButTime hcfg henv hdepth hrc hsame _

/-- Two entry records that show the same call, at the same slot and with the
same say in whether its frame is kept. -/
theorem handleEntry_sameButTime (hcfg : S.cfg = S'.cfg) (henv : env.Same env')
    (ht : t.SameButTime t')
    (hslots : S.slotAt (e.ip - S.base) = S'.slotAt (e'.ip - S'.base))
    (h : ∀ slot, S.slotAt (e.ip - S.base) = some slot →
      S.retSet slot = S'.retSet slot ∧ e.ReadsAlike (slotName slot) e') :
    (handleEntry S env t e).1.SameButTime (handleEntry S' env' t' e').1 ∧
      Option.Rel SameLine (handleEntry S env t e).2 (handleEntry S' env' t' e').2 := by
  unfold handleEntry
  rw [← hslots]
  cases hslot : S.slotAt (e.ip - S.base) with
  | none => exact ⟨ht, .none⟩
  | some slot =>
      obtain ⟨hret, hreads⟩ := h slot hslot
      have hframe : (newFrame env e slot t.caches).SameButTime
          (newFrame env' e' slot t'.caches) := by
        unfold Frame.SameButTime
        rw [hreads.newFrame, ht.caches]
        simp only [newFrame, henv.mr, henv.moduleOf]
      have hframes (k : Key) : Option.Rel Frame.SameButTime
          ((if S.retSet slot = true ∧ 0 ≤ e.depth then
            Function.update t.frames (e.tid.toInt32, e.depth)
              (some (newFrame env e slot t.caches)) else t.frames) k)
          ((if S'.retSet slot = true ∧ 0 ≤ e'.depth then
            Function.update t'.frames (e'.tid.toInt32, e'.depth)
              (some (newFrame env' e' slot t'.caches)) else t'.frames) k) := by
        rw [← hret, ← hreads.depth, ← hreads.tid]
        split
        · exact sameFrames_update ht.frames _ (.some hframe) k
        · exact ht.frames k
      have htag : verboseTag S env e = verboseTag S' env' e' := by
        rw [hreads.verboseTag]
        simp only [verboseTag, hcfg, henv.moduleOf]
      have htext : genericLine e slot t.caches env.mr = genericLine e' slot t'.caches env'.mr := by
        rw [hreads.genericLine, ht.caches, henv.mr]
      have hcalls : describeCall e (slotName slot) t.caches env.mr =
          describeCall e' (slotName slot) t'.caches env'.mr := by
        rw [hreads.describeCall, ht.caches, henv.mr]
      have hmodule : env.moduleOf e.caller = env'.moduleOf e'.caller := by
        rw [henv.moduleOf, hreads.caller]
      dsimp only
      rw [henv.filters.matchSlot, hcfg, htag, htext, hcalls, hmodule]
      generalize (if S.retSet slot = true ∧ 0 ≤ e.depth then _ else t.frames) = frames at hframes ⊢
      generalize (if S'.retSet slot = true ∧ 0 ≤ e'.depth then _ else t'.frames) = frames'
        at hframes ⊢
      rw [← hreads.depth, ← hreads.tid]
      split
      · exact ⟨⟨ht.caches, hframes⟩, .none⟩
      split
      · exact ⟨⟨ht.caches, hframes⟩, .none⟩
      split
      · rw [henv.filters.matchLine]
        have hset := sameFrames_setCall hframes (e.tid.toInt32, e.depth)
          (describeCall e' (slotName slot) t'.caches env'.mr).1
        split
        · exact ⟨⟨ht.caches, hset⟩, .some (.same _)⟩
        · exact ⟨⟨ht.caches, hset⟩, .none⟩
      · rw [henv.filters.matchLine]
        split
        · exact ⟨⟨ht.caches, hframes⟩, .some (.same _)⟩
        · exact ⟨⟨ht.caches, hframes⟩, .none⟩

end Handling

end JniProbe
