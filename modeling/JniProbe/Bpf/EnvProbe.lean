import JniProbe.Bpf.Recon
import JniProbe.Lib.Runs

/-!
The probe of `envprobe.bpf.c`: it follows a candidate for a `JNIEnv*` to its
function table and dumps more words than the table has.
-/

namespace JniProbe

abbrev envSlots : Nat := 240

/-- `struct dump_t`. -/
structure EnvDump where
  pid : UInt32
  site : UInt32
  reg : UInt32
  pad : UInt32
  env : UInt64
  table : UInt64
  slots : Vector UInt64 envSlots

namespace EnvProbe

/-- One candidate; `reserved` tells whether the ring had room. -/
def emit (pid : UInt32) (mem : UserMemory) (site reg : UInt32) (cand : UInt64) (reserved : Bool) :
    Option EnvDump :=
  if cand < 0x10000 then none
  else
    match mem.word cand 8 with
    | none => none
    | some w =>
      let table := w.toUInt64
      if table < 0x10000 ∨ 0x0000800000000000 < table then none
      else
        match mem.word (table + 6 * 8) 8 with
        | none => none
        | some v =>
          if v.toUInt64 < 0x10000 then none
          else if !reserved then none
          else some
            { pid, site, reg, pad := 0, env := cand, table,
              slots := Vector.ofFn (fun i => probeRead mem (table + i.val.toUInt64 * 8)) }

/-- What a dump is made of, given the table that was found. -/
theorem emit_dump {pid : UInt32} {mem : UserMemory} {site reg : UInt32} {cand : UInt64}
    {reserved : Bool} {d : EnvDump} (h : emit pid mem site reg cand reserved = some d) :
    d = { pid, site, reg, pad := 0, env := cand, table := d.table,
          slots := Vector.ofFn (fun i => probeRead mem (d.table + i.val.toUInt64 * 8)) } := by
  rw [emit] at h
  split at h
  · cases h
  · split at h
    · cases h
    · dsimp only at h
      split at h
      · cases h
      · split at h
        · cases h
        · split at h
          · cases h
          · split at h
            · cases h
            · cases h
              rfl

theorem emit_pid {pid : UInt32} {mem : UserMemory} {site reg : UInt32} {cand : UInt64}
    {reserved : Bool} {d : EnvDump} (h : emit pid mem site reg cand reserved = some d) :
    d.pid = pid :=
  congrArg EnvDump.pid (emit_dump h)

/-- Every dumped word is the one at its place behind the table pointer. -/
theorem emit_slots {pid : UInt32} {mem : UserMemory} {site reg : UInt32} {cand : UInt64}
    {reserved : Bool} {d : EnvDump} (h : emit pid mem site reg cand reserved = some d)
    (i : Fin envSlots) : d.slots.get i = probeRead mem (d.table + i.val.toUInt64 * 8) := by
  rw [congrArg EnvDump.slots (emit_dump h)]
  exact Vector.getElem_ofFn i.isLt

/-- A candidate that leads to a table whose `GetVersion` slot looks like code. -/
def ValidEnv (mem : UserMemory) (cand : UInt64) : Prop :=
  0x10000 ≤ cand ∧ ∃ w, mem.word cand 8 = some w ∧
    0x10000 ≤ w.toUInt64 ∧ w.toUInt64 ≤ 0x0000800000000000 ∧
    ∃ v, mem.word (w.toUInt64 + 6 * 8) 8 = some v ∧ 0x10000 ≤ v.toUInt64

/-- An attempt delivers a dump exactly if none of the five exits is taken. -/
theorem emit_isSome_iff (pid : UInt32) (mem : UserMemory) (site reg : UInt32) (cand : UInt64)
    (reserved : Bool) : (emit pid mem site reg cand reserved).isSome = true ↔
      ValidEnv mem cand ∧ reserved = true := by
  unfold emit
  split
  · rename_i hsmall
    refine iff_of_false Bool.false_ne_true ?_
    rintro ⟨⟨hcand, -⟩, -⟩
    exact UInt64.not_le.mpr hsmall hcand
  · rename_i hcand
    split
    · rename_i hfault
      refine iff_of_false Bool.false_ne_true ?_
      rintro ⟨⟨-, w, hw, -⟩, -⟩
      rw [hfault] at hw
      cases hw
    · rename_i w hw
      dsimp only
      split
      · rename_i hout
        refine iff_of_false Bool.false_ne_true ?_
        rintro ⟨⟨-, w', hw', hlo, hhi, -⟩, -⟩
        obtain rfl := Option.some.inj (hw.symm.trans hw')
        rcases hout with h | h
        · exact UInt64.not_le.mpr h hlo
        · exact UInt64.not_le.mpr h hhi
      · rename_i htable
        split
        · rename_i hfault
          refine iff_of_false Bool.false_ne_true ?_
          rintro ⟨⟨-, w', hw', -, -, v, hv, -⟩, -⟩
          obtain rfl := Option.some.inj (hw.symm.trans hw')
          rw [hfault] at hv
          cases hv
        · rename_i v hv
          split
          · rename_i hsmall
            refine iff_of_false Bool.false_ne_true ?_
            rintro ⟨⟨-, w', hw', -, -, v', hv', hcode⟩, -⟩
            obtain rfl := Option.some.inj (hw.symm.trans hw')
            obtain rfl := Option.some.inj (hv.symm.trans hv')
            exact UInt64.not_le.mpr hsmall hcode
          · rename_i hcode
            obtain ⟨hlo, hhi⟩ := not_or.mp htable
            have hvalid : ValidEnv mem cand :=
              ⟨UInt64.not_lt.mp hcand, w, hw, UInt64.not_lt.mp hlo, UInt64.not_lt.mp hhi, v, hv,
                UInt64.not_lt.mp hcode⟩
            cases reserved with
            | false => exact iff_of_false Bool.false_ne_true (fun h => Bool.false_ne_true h.2)
            | true => exact iff_of_true rfl ⟨hvalid, rfl⟩

/-! ### The two probes -/

/-- What one attempt finds: the memory it reads and whether the ring has room. -/
structure Attempt where
  mem : UserMemory
  reserved : Bool

inductive Probe where
  | lnl
  | cnt

/-- A hit: the process, its first two registers and the two attempts in order. -/
structure EnvHit where
  probe : Probe
  pid : UInt32
  parm1 : UInt64
  parm2 : UInt64
  first : Attempt
  second : Attempt

/-- The map `seen` and the records submitted so far. -/
structure EnvState where
  seen : BoundedMap UInt32 UInt8 8192
  events : List EnvDump

def EnvState.start : EnvState := ⟨BoundedMap.empty, []⟩

/-- The body that both probes share; whatever the attempts return, the process
is entered into `seen`. -/
def probeOnce (st : EnvState) (pid : UInt32) (first second : Option EnvDump) : EnvState :=
  if (st.seen.lookup pid).isSome then st
  else ⟨st.seen.update pid 1, st.events ++ first.toList ++ second.toList⟩

/-- `LoadNativeLibrary` is a member function, so its second register comes first. -/
def upLnl (st : EnvState) (hit : EnvHit) : EnvState :=
  probeOnce st hit.pid
    (emit hit.pid hit.first.mem 1 1 hit.parm2 hit.first.reserved)
    (emit hit.pid hit.second.mem 1 0 hit.parm1 hit.second.reserved)

def upCnt (st : EnvState) (hit : EnvHit) : EnvState :=
  probeOnce st hit.pid
    (emit hit.pid hit.first.mem 2 0 hit.parm1 hit.first.reserved)
    (emit hit.pid hit.second.mem 2 1 hit.parm2 hit.second.reserved)

def step (st : EnvState) (hit : EnvHit) : EnvState :=
  match hit.probe with
  | .lnl => upLnl st hit
  | .cnt => upCnt st hit

/-- The states of a sequence of hits. -/
def run (hits : List EnvHit) : EnvState := Runs.run step EnvState.start hits

end EnvProbe

end JniProbe
