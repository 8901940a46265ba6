import JniProbe.Properties.EntryReturn

/-!
Which calls are printed. The loop decides about the line of an entry with the
class and method it has just computed; `handleReturn` decides again, from the
text stored in the frame and without looking at `known` or `verbose`. The two
decisions are stated side by side and compared for the records of one call.
-/

namespace JniProbe

open GoText GoFormat HeightSlots

/-- Whether processing the record at position `n` of a stream emits a line. -/
def emitsAt (S : Session) (recs : List Record) (n : Nat) : Bool :=
  match recs[n]? with
  | some r => (handleEvent S r.env (Tracker.after S (recs.take n)) r.evt).2.isSome
  | none => false

/-- The mode, only, exclude and depth settings want the call. -/
def selected (S : Session) (f : Filters) (slot : Nat) (depth : Int32) : Bool :=
  f.matchSlot slot && !tooDeep S.cfg depth

/-- The filters on class, method and caller accept the text of a call, split
at its last dot. -/
def acceptsText (f : Filters) (call caller : Bytes) : Bool :=
  f.matchLine (splitClassMethod call).1 (splitClassMethod call).2 call caller

/-- When the two decisions about one call agree: it is not selected at all; or
it is a call function whose method id is known, or shown because of `verbose`,
or whose text the filters reject; or it is another function and the filters say
of its name what they say of its text. -/
def linesAgree (S : Session) (env : Env) (e : Evt) (slot : Nat) (cs : Caches) : Bool :=
  !selected S env.filters slot e.depth ||
  if Session.callSet slot then
    (describeCall e (slotName slot) cs env.mr).2 || S.cfg.verbose ||
      !acceptsText env.filters (describeCall e (slotName slot) cs env.mr).1
        (env.moduleOf e.caller)
  else
    env.filters.matchLine [] (slotName slot) (genericLine e slot cs env.mr)
        (env.moduleOf e.caller) ==
      acceptsText env.filters (genericLine e slot cs env.mr) (env.moduleOf e.caller)

/-! ### The decision at the entry -/

private theorem ite_emits (decision : Bool) (t t' : Tracker) (line : Bytes) :
    (if decision then (t, some line) else (t', none)).2.isSome = decision := by
  cases decision <;> rfl

section Entry

variable (S : Session) (env : Env) (t : Tracker) (e : Evt) {slot : Nat}

/-- The text that the line of an entry shows. -/
def entryText (slot : Nat) : Bytes :=
  if Session.callSet slot then (describeCall e (slotName slot) t.caches env.mr).1
  else genericLine e slot t.caches env.mr

/-- What follows the text: a call function shows its caller when asked to. -/
def entryTag (slot : Nat) : Bytes := if Session.callSet slot then verboseTag S env e else []

/-- The line of an entry: indentation, arrow, the text and what follows it. -/
theorem entry_line (hslot : S.slotAt (e.ip - S.base) = some slot) {l : Bytes}
    (hl : (handleEntry S env t e).2 = some l) :
    l = indentStr e.depth ++ str "-> " ++ entryText env t e slot ++ entryTag S env e slot := by
  unfold handleEntry at hl
  rw [hslot] at hl
  dsimp only at hl
  unfold entryText entryTag Session.callSet
  split at hl
  · cases hl
  · split at hl
    · cases hl
    · cases hix : isCallMethod (slotName slot) with
      | some ix =>
          rw [hix] at hl
          dsimp only at hl
          split at hl
          · exact (Option.some.inj hl).symm
          · cases hl
      | none =>
          rw [hix] at hl
          dsimp only at hl
          split at hl
          · rw [← Option.some.inj hl]
            exact (List.append_nil _).symm
          · cases hl

theorem entry_emits_call (hslot : S.slotAt (e.ip - S.base) = some slot)
    (hcall : Session.callSet slot = true) :
    (handleEntry S env t e).2.isSome =
      (selected S env.filters slot e.depth &&
        ((describeCall e (slotName slot) t.caches env.mr).2 || S.cfg.verbose) &&
        acceptsText env.filters (describeCall e (slotName slot) t.caches env.mr).1
          (env.moduleOf e.caller)) := by
  obtain ⟨ix, hix⟩ := Option.isSome_iff_exists.mp hcall
  unfold handleEntry selected
  rw [hslot]
  dsimp only
  cases hmatch : env.filters.matchSlot slot with
  | false => rfl
  | true =>
      cases hdeep : tooDeep S.cfg e.depth with
      | true => rfl
      | false =>
          simp only [Bool.not_true, Bool.false_eq_true, if_false, hix]
          rw [ite_emits]
          rfl

theorem entry_emits_generic (hslot : S.slotAt (e.ip - S.base) = some slot)
    (hcall : Session.callSet slot = false) :
    (handleEntry S env t e).2.isSome =
      (selected S env.filters slot e.depth &&
        env.filters.matchLine [] (slotName slot) (genericLine e slot t.caches env.mr)
          (env.moduleOf e.caller)) := by
  have hix : isCallMethod (slotName slot) = none := by
    simpa [Session.callSet] using hcall
  unfold handleEntry selected
  rw [hslot]
  dsimp only
  cases hmatch : env.filters.matchSlot slot with
  | false => rfl
  | true =>
      cases hdeep : tooDeep S.cfg e.depth with
      | true => rfl
      | false =>
          simp only [Bool.not_true, Bool.false_eq_true, if_false, hix]
          rw [ite_emits]
          rfl

end Entry

/-! ### The decision at the return -/

/-- Without `--grep` the filters do not look at the line itself. -/
theorem matchLine_of_grep {f : Filters} (hgrep : f.grep = []) (cls meth line line' caller : Bytes) :
    f.matchLine cls meth line caller = f.matchLine cls meth line' caller := by
  simp [Filters.matchLine, hgrep]

section Return

variable (S : Session) (env : Env) (e : Evt)

/-- The line of a return: indentation, arrow, the stored text, the value and the time. -/
theorem returnLine_eq {fr : Frame} {cs : Caches} {l : Bytes}
    (hl : returnLine S env e fr cs = some l) :
    l = indentStr e.depth ++ str "<- " ++ fr.call ++ str " = " ++
      fmtRet cs env.mr (slotRet fr.slot) e.rc ++ str "  (" ++ millis (e.ts - fr.ts) ++
      str " ms)" := by
  unfold returnLine at hl
  dsimp only at hl
  split at hl
  · split at hl
    · cases hl
    · split at hl
      · exact (Option.some.inj hl).symm
      · cases hl
  · cases hl

/-- The line of a return needs a stored text that the settings and the filters accept. -/
theorem returnLine_emits (fr : Frame) (cs : Caches) :
    (returnLine S env e fr cs).isSome =
      (selected S env.filters fr.slot e.depth && fr.call ≠ [] &&
        env.filters.matchLine (splitClassMethod fr.call).1 (splitClassMethod fr.call).2
          (fr.call ++ fmtRet cs env.mr (slotRet fr.slot) e.rc) fr.caller) := by
  unfold returnLine selected
  dsimp only
  cases env.filters.matchSlot fr.slot with
  | false => rfl
  | true =>
      cases htext : decide (fr.call ≠ []) with
      | false => simp
      | true =>
          cases tooDeep S.cfg e.depth with
          | true => rfl
          | false =>
              simp only [Bool.not_false, Bool.true_and, Bool.and_self, if_true,
                Bool.false_eq_true, if_false]
              split
              · rename_i hline
                rw [hline]
                rfl
              · rename_i hline
                rw [Bool.not_eq_true] at hline
                rw [hline]
                rfl

theorem returnLine_isSome (fr : Frame) (cs : Caches) (hgrep : env.filters.grep = [])
    (htext : fr.call ≠ []) :
    (returnLine S env e fr cs).isSome =
      (selected S env.filters fr.slot e.depth && acceptsText env.filters fr.call fr.caller) := by
  rw [returnLine_emits, acceptsText, decide_eq_true htext, Bool.and_true,
    matchLine_of_grep hgrep _ _ _ fr.call]

theorem describeCall_ne_nil (nm : Bytes) (cs : Caches) (mr : Option UserMemory)
    (hcall : (isCallMethod nm).isSome = true) : (describeCall e nm cs mr).1 ≠ [] := by
  obtain ⟨ix, hix⟩ := Option.isSome_iff_exists.mp hcall
  have hdot : str "." ≠ [] := by decide
  have hmid : str " mid=" ≠ [] := by decide
  unfold describeCall
  rw [hix]
  dsimp only
  split
  · simp [hmid]
  · simp [hdot]

theorem genericLine_ne_nil (slot : Nat) (cs : Caches) (mr : Option UserMemory) :
    genericLine e slot cs mr ≠ [] := by
  have hparen : str "(" ≠ [] := by decide
  simp [genericLine, hparen]

/-- The line of a return whose frame was stored for the entry `en`. -/
theorem return_emits {en : Evt} {envn : Env} {slot : Nat} {cs csr : Caches}
    (hfilters : env.filters = envn.filters) (hgrep : env.filters.grep = [])
    (hdepth : e.depth = en.depth) :
    (returnLine S env e (storedFrame S envn en slot cs) csr).isSome =
      (selected S envn.filters slot en.depth &&
        acceptsText envn.filters
          (if Session.callSet slot then (describeCall en (slotName slot) cs envn.mr).1
            else genericLine en slot cs envn.mr) (envn.moduleOf en.caller)) := by
  cases hselected : selected S envn.filters slot en.depth with
  | false =>
      have hboth : env.filters.matchSlot slot = false ∨ tooDeep S.cfg e.depth = true := by
        rw [hfilters, hdepth, ← Bool.not_eq_false', ← Bool.and_eq_false_iff]
        exact hselected
      rcases hboth with hmatch | hdeep
      · simp [returnLine, storedFrame, newFrame, hmatch]
      · unfold returnLine
        rw [hdeep]
        split <;> rfl
  | true =>
      have hstored : (storedFrame S envn en slot cs).call =
          if Session.callSet slot then (describeCall en (slotName slot) cs envn.mr).1
          else genericLine en slot cs envn.mr := by
        have hsel : (envn.filters.matchSlot slot && !tooDeep S.cfg en.depth) = true := hselected
        simp only [storedFrame, storedCall, hsel, if_true]
      have htext : (storedFrame S envn en slot cs).call ≠ [] := by
        rw [hstored]
        split
        · rename_i hcall
          exact describeCall_ne_nil en (slotName slot) cs envn.mr hcall
        · exact genericLine_ne_nil en slot cs envn.mr
      rw [returnLine_isSome S env e _ csr hgrep htext, hstored, hfilters, hdepth]
      have hslot : (storedFrame S envn en slot cs).slot = slot := rfl
      have hcaller : (storedFrame S envn en slot cs).caller = envn.moduleOf en.caller := rfl
      rw [hslot, hcaller, hselected]

end Return

/-! ### One call -/

/-- In any run with fixed filters and no `--grep`, take a call whose entry and
return record are processed and paired. The two records emit a line both or
neither exactly when `linesAgree` holds of the call at its entry. -/
theorem entry_return_lines_iff (S : Session) (att : Attachment) (acts : List Action)
    (hfilters : ∀ r ∈ (Machine.run S att acts).ring, r.env.filters = S.filters)
    (hgrep : S.filters.grep = []) (i j : Nat) (e r : Record) (slot : Nat)
    (hcall : Completed S (Machine.run S att acts).ring i j e r slot)
    (hpaired : pairedWith S ((Machine.run S att acts).ring.take j) r = some r.call) :
    emitsAt S (Machine.run S att acts).ring i = emitsAt S (Machine.run S att acts).ring j ↔
      linesAgree S e.env e.evt slot
        (Tracker.after S ((Machine.run S att acts).ring.take i)).caches = true := by
  obtain ⟨i', e', slot', -, hcall', hkey, hnonneg, hw, hfound⟩ :=
    answered_of_paired hcall.returned hpaired
  obtain ⟨rfl, -, rfl, rfl⟩ := hcall.unique hcall'
  have htid : e.evt.tid = r.evt.tid := toInt32_injective (congrArg Prod.fst hkey)
  have hdepth : e.evt.depth = r.evt.depth := congrArg Prod.snd hkey
  have hwe : watched S.cfg e.evt.tid = true := by rw [htid, hw]
  have hfe : e.env.filters = S.filters := hfilters e (List.mem_of_getElem? hcall.entered)
  have hfr : r.env.filters = S.filters := hfilters r (List.mem_of_getElem? hcall.returned)
  simp only [emitsAt, hcall.entered, hcall.returned]
  rw [handleEvent_entry _ _ _ hwe hcall.entry, handleEvent_return _ _ _ hw hcall.ret,
    handleReturn_found S r.env _ _ hnonneg hfound]
  dsimp only
  rw [return_emits S r.env r.evt (hfr.trans hfe.symm) (by rw [hfr, hgrep]) hdepth.symm]
  generalize (Tracker.after S ((Machine.run S att acts).ring.take i)) = t
  unfold linesAgree
  cases hselected : selected S e.env.filters slot e.evt.depth with
  | false =>
      cases hset : Session.callSet slot with
      | true => simp [entry_emits_call S e.env t e.evt hcall.slot hset, hselected]
      | false => simp [entry_emits_generic S e.env t e.evt hcall.slot hset, hselected]
  | true =>
      cases hset : Session.callSet slot with
      | true =>
          rw [entry_emits_call S e.env t e.evt hcall.slot hset, hselected]
          simp only [Bool.true_and, if_true, Bool.not_true, Bool.false_or]
          cases (describeCall e.evt (slotName slot) t.caches e.env.mr).2 <;>
            cases S.cfg.verbose <;> simp
      | false =>
          rw [entry_emits_generic S e.env t e.evt hcall.slot hset, hselected]
          simp

namespace Scenario

/-- `CallObjectMethod` at offset 0 and `FindClass` at offset 1. -/
def callSession : Session := session (table [34, 6])

/-- One call of the function at this offset. -/
def oneCall (off : UInt64) : List Action := [.enter 1 off plainHit, .leave 1 plainHit]

end Scenario

open Scenario in
/-- For `FindClass` under the default filters both lines are printed. -/
theorem entry_return_lines_findClass :
    ∃ e r, (Machine.run callSession .all (oneCall 1)).ring = [e, r] ∧
      (emitsAt callSession (Machine.run callSession .all (oneCall 1)).ring 0 =
          emitsAt callSession (Machine.run callSession .all (oneCall 1)).ring 1 ↔
        linesAgree callSession e.env e.evt 6 newCaches = true) := by
  have hring : (Machine.run callSession .all (oneCall 1)).ring =
      [Machine.enterRecord callSession Machine.start 1 1 plainHit blank,
        Machine.leaveRecord (Machine.run callSession .all [.enter 1 1 plainHit]) 1 plainHit 0
          blank] := by
    rfl
  have hmonitored : Monitored callSession (oneCall 1) := by
    apply Monitored.of_short
    · decide +kernel
    · decide
    · decide
  have hfilters : ∀ r ∈ (Machine.run callSession .all (oneCall 1)).ring,
      r.env.filters = callSession.filters := by
    rw [hring]
    intro r hr
    rcases List.mem_cons.mp hr with rfl | hr
    · rfl
    · rw [List.mem_singleton.mp hr]
      rfl
  have hcall : Completed callSession (Machine.run callSession .all (oneCall 1)).ring 0 1
      (Machine.enterRecord callSession Machine.start 1 1 plainHit blank)
      (Machine.leaveRecord (Machine.run callSession .all [.enter 1 1 plainHit]) 1 plainHit 0
        blank) 6 := by
    refine ⟨?_, ?_, rfl, rfl, rfl, ?_⟩
    · rw [hring]
      rfl
    · rw [hring]
      rfl
    · decide +kernel
  have hpaired := hmonitored.pairsOwn 1 _ hcall.returned rfl rfl
  exact ⟨_, _, hring, entry_return_lines_iff callSession .all (oneCall 1) hfilters rfl 0 1 _ _ 6
    hcall hpaired⟩

open Scenario in
/-- A call through a method id that no lookup has taught: the entry is not
printed, the return is. -/
theorem unknown_call_prints_return :
    callSession.filters.grep = [] ∧ callSession.cfg.noReturns = false ∧
      ((Machine.run callSession .all (oneCall 0)).ring.map (fun r => (r.evt.kind, r.call))) =
        [(0, 0), (1, 0)] ∧
      emitsAt callSession (Machine.run callSession .all (oneCall 0)).ring 0 = false ∧
      emitsAt callSession (Machine.run callSession .all (oneCall 0)).ring 1 = true := by
  refine ⟨rfl, rfl, ?_, ?_, ?_⟩
  · decide +kernel
  · decide +kernel
  · decide +kernel

end JniProbe
