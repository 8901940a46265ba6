import JniProbe.Loader.Trace

/-!
What the loader reads of a record. Of the captured words only those that the
decoder chosen by the function's name asks for; a record that differs in the
others is handled alike.
-/

namespace JniProbe

open GoText GoFormat

/-- Two records that show the loader the same call of the function `nm`,
perhaps at different times. -/
structure Evt.ReadsAlike (nm : Bytes) (e e' : Evt) : Prop where
  tid : e.tid = e'.tid
  kind : e.kind = e'.kind
  ip : e.ip = e'.ip
  depth : e.depth = e'.depth
  caller : e.caller = e'.caller
  a : e.a = e'.a
  args : (isCallMethod nm).isSome = true → ∀ params c mr,
    decodeArgs e nm params c mr = decodeArgs e' nm params c mr

section Reads

variable {nm : Bytes} {slot : Nat} {e e' : Evt}

theorem Evt.ReadsAlike.describeCall (h : e.ReadsAlike nm e') (c : Caches)
    (mr : Option UserMemory) : describeCall e nm c mr = describeCall e' nm c mr := by
  unfold JniProbe.describeCall
  cases hcall : isCallMethod nm with
  | none => rfl
  | some ix =>
      simp only [h.a, describeClass, h.args (by rw [hcall]; rfl)]

theorem Evt.ReadsAlike.genericLine (h : e.ReadsAlike nm e') (slot : Nat) (c : Caches)
    (mr : Option UserMemory) : genericLine e slot c mr = genericLine e' slot c mr := by
  simp only [JniProbe.genericLine, renderGeneric, h.a]

theorem Evt.ReadsAlike.verboseTag (h : e.ReadsAlike nm e') (S : Session) (env : Env) :
    verboseTag S env e = verboseTag S env e' := by
  simp only [JniProbe.verboseTag, h.caller]

theorem Evt.ReadsAlike.newFrame (h : e.ReadsAlike nm e') (env : Env) (slot : Nat) (cs : Caches) :
    newFrame env e slot cs = { newFrame env e' slot cs with ts := e.ts } := by
  simp only [JniProbe.newFrame, h.genericLine slot, h.caller, h.a]

/-- An entry record is handled by what the loader reads of it. -/
theorem handleEntry_reads (S : Session) (env : Env) (t : Tracker) (hip : e.ip = e'.ip)
    (hts : e.ts = e'.ts)
    (h : ∀ slot, S.slotAt (e.ip - S.base) = some slot → e.ReadsAlike (slotName slot) e') :
    handleEntry S env t e = handleEntry S env t e' := by
  unfold handleEntry
  rw [← hip]
  cases hslot : S.slotAt (e.ip - S.base) with
  | none => rfl
  | some slot =>
      have hreads := h slot hslot
      have hframe : newFrame env e slot t.caches = newFrame env e' slot t.caches := by
        rw [hreads.newFrame, hts]
        rfl
      simp only [hreads.tid, hreads.depth, hreads.caller, hframe, hreads.describeCall,
        hreads.genericLine slot, hreads.verboseTag]

/-- A return record is handled by its thread, depth, value and time. -/
theorem handleReturn_reads (S : Session) (env : Env) (t : Tracker) (htid : e.tid = e'.tid)
    (hdepth : e.depth = e'.depth) (hrc : e.rc = e'.rc) (hts : e.ts = e'.ts) :
    handleReturn S env t e = handleReturn S env t e' := by
  simp only [handleReturn, returnLine, htid, hdepth, hrc, hts]

end Reads

end JniProbe
