import JniProbe.Bpf.Recon

/-!
What the entry program captures of the arguments of a call function, by the
kind that the loader recorded for it: the words of a `jvalue` array, the
register save area and the stack behind a `va_list`, or two registers.
-/

namespace JniProbe

theorem captureWords_getElem (mem : UserMemory) (p : UInt64) {i : Nat} (h : i < ncapWords) :
    (captureWords mem p)[i] = probeRead mem (p + i.toUInt64 * 8) := by
  simp [captureWords]

theorem probeRead_of_word {mem : UserMemory} {p w : UInt64} (h : mem.word p 8 = some w.toNat) :
    probeRead mem p = w := by
  simp [probeRead, h]

/-- A readable `va_list` is captured as its four words. -/
theorem probeReadVaList_of_words {mem : UserMemory} {p : UInt64}
    (hread : (mem.readRun p 32).length = 32) {i : Nat} (hi : i < 4) {w : UInt64}
    (h : mem.word (p + i.toUInt64 * 8) 8 = some w.toNat) : (probeReadVaList mem p)[i] = w := by
  unfold probeReadVaList
  simp only [hread, if_true, Vector.getElem_ofFn]
  exact probeRead_of_word h

section Captured

variable {m : ProbeMaps} (d : UInt32) (ctx : ProbeCtx) (raw : Evt) {ix : UInt8}

/-- Where the loader recorded a kind and a register, the record is what
`capture` makes of the registers and the memory. -/
theorem entryEvt_captured {k : UInt8} (hkind : m.argkind.lookup (ctx.ip - m.base) = some k)
    (hindex : m.argidx.lookup (ctx.ip - m.base) = some ix) (hk : k ≠ 0) (hix : ix.toNat < nargs) :
    ∃ (e : Evt) (stackid : Int32), e.a = ctx.parm ∧ entryEvt m d ctx raw =
      { capture ctx.mem e ctx.parm[ix.toNat] k ⟨ix.toNat, hix⟩ with stackid := stackid } := by
  have hargs (e : Evt) (he : e.a = ctx.parm) :
      captureArgs m ctx.mem (ctx.ip - m.base) e =
        capture ctx.mem e ctx.parm[ix.toNat] k ⟨ix.toNat, hix⟩ := by
    simp only [captureArgs, hkind, hindex, dif_pos (And.intro hk hix), he]
  have htracked : ∃ e : Evt, e.a = ctx.parm ∧
      (if (m.hasret.lookup ((entryRecord raw ctx).ip - m.base)).isSome then
        { entryRecord raw ctx with depth := d.toInt32 } else entryRecord raw ctx) = e := by
    split
    · exact ⟨_, rfl, rfl⟩
    · exact ⟨_, rfl, rfl⟩
  obtain ⟨e, he, hrecord⟩ := htracked
  have hoff : (entryRecord raw ctx).ip = ctx.ip := rfl
  unfold entryEvt
  dsimp only
  rw [hrecord, hoff, hargs e he]
  split
  · exact ⟨e, ctx.stackid, he, rfl⟩
  · exact ⟨e, _, he, rfl⟩

variable (hindex : m.argidx.lookup (ctx.ip - m.base) = some ix) (hix : ix.toNat < nargs)
include hindex

theorem entryEvt_jvalues (hkind : m.argkind.lookup (ctx.ip - m.base) = some 1) :
    (entryEvt m d ctx raw).cap = captureWords ctx.mem ctx.parm[ix.toNat] := by
  obtain ⟨e, stackid, -, hevt⟩ := entryEvt_captured d ctx raw hkind hindex (by decide) hix
  rw [hevt]
  rfl

theorem entryEvt_vaList (hkind : m.argkind.lookup (ctx.ip - m.base) = some 2)
    {st : Vector UInt64 4} (hst : probeReadVaList ctx.mem ctx.parm[ix.toNat] = st) :
    (entryEvt m d ctx raw).vstk = st[0] ∧ (entryEvt m d ctx raw).vgr = st[1] ∧
      (entryEvt m d ctx raw).vgoff = st[3].toUInt32.toInt32.toInt64 ∧
      (entryEvt m d ctx raw).cap = captureWords ctx.mem (st[1] - 128) ∧
      (entryEvt m d ctx raw).cap2 = captureWords ctx.mem st[0] := by
  obtain ⟨e, stackid, -, hevt⟩ := entryEvt_captured d ctx raw hkind hindex (by decide) hix
  rw [hevt, ← hst]
  exact ⟨rfl, rfl, rfl, rfl, rfl⟩

theorem entryEvt_registers (hkind : m.argkind.lookup (ctx.ip - m.base) = some 3) :
    (entryEvt m d ctx raw).ncap = 5 - ix.toNat.toUInt32 ∧
      (entryEvt m d ctx raw).cap[0] = ctx.parm[ix.toNat] ∧
      ∀ h : ix.toNat + 1 < nargs, (entryEvt m d ctx raw).cap[1] = ctx.parm[ix.toNat + 1] := by
  obtain ⟨e, stackid, he, hevt⟩ := entryEvt_captured d ctx raw hkind hindex (by decide) hix
  rw [hevt]
  refine ⟨rfl, ?_, ?_⟩
  · simp [capture, he]
    rfl
  · intro h
    simp [capture, he, h]

end Captured

end JniProbe
