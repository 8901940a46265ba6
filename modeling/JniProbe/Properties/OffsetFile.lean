import JniProbe.Loader.Env
import JniProbe.Properties.OffsetUnion

/-!
The two sources of offsets agree: the file that `jniprobe env` writes for a
function table, read back, is the map that the search of the memory makes of
this table. The reserved words and those behind the table do not matter.
-/

namespace JniProbe

open GoText GoFormat

/-! ### What the file says about one slot -/

theorem trimSpace_hex (v : UInt64) : trimSpace (hex v) = hex v := by
  have hdigits : ∀ b ∈ hex v, endsSpace b = false := by
    intro b hb
    rw [hex, List.mem_append] at hb
    rcases hb with hfront | hdigit
    · have hall : (str "0x").all (fun c => !endsSpace c) = true := by decide
      simpa using List.all_eq_true.mp hall b hfront
    · obtain ⟨d, hd, rfl⟩ := GoNumber.mem_digits (by decide) hdigit
      have hall : ∀ d : Fin 16, endsSpace (GoNumber.digitByte d) = false := by decide
      exact hall ⟨d, hd⟩
  apply trimSpace_eq_self
  · intro b hb
    have hzero : (hex v).head? = some 48 := rfl
    rw [hzero] at hb
    obtain rfl := Option.some.inj hb
    rfl
  · intro b hb
    exact hdigits b (List.mem_of_getLast? hb)

theorem fileWrite_entry (i : Fin envSlots) (v : UInt64) :
    fileWrite (digits 10 i.val, hex v) =
      if i.val < jniSchema.length then some (v, i.val) else none := by
  have hi : i.val < 240 := i.isLt
  have hslot : GoNumber.atoi (digits 10 i.val) = some (i.val : Int) :=
    GoNumber.atoi_digits (by omega)
  simp only [fileWrite, hslot, trimSpace_hex, GoNumber.parseUint_hex, Int.toNat_natCast]
  have hrange : ((i.val : Int) < 0 ∨ (jniSchema.length : Int) ≤ (i.val : Int)) ↔
      ¬ i.val < jniSchema.length := by omega
  simp only [hrange, ite_not]

theorem mem_envKeys {execLo execHi : UInt64} {d : EnvDump} {i : Fin envSlots} :
    i ∈ envKeys execLo execHi d ↔ execLo ≤ d.slots.get i ∧ d.slots.get i < execHi := by
  simp only [envKeys, List.mem_filter, List.mem_finRange, true_and, decide_eq_true_eq]

theorem mem_envWrites {base execLo execHi : UInt64} {d : EnvDump} {off : UInt64} {slot : Nat} :
    (off, slot) ∈ (envEntries base execLo execHi d).filterMap fileWrite ↔
      ∃ i : Fin envSlots, i.val < jniSchema.length ∧
        (execLo ≤ d.slots.get i ∧ d.slots.get i < execHi) ∧
        off = d.slots.get i - base ∧ slot = i.val := by
  rw [List.mem_filterMap]
  constructor
  · rintro ⟨e, he, hwrite⟩
    obtain ⟨i, hkey, rfl⟩ := List.mem_map.mp he
    rw [fileWrite_entry] at hwrite
    split at hwrite
    next hslot =>
      cases hwrite
      exact ⟨i, hslot, mem_envKeys.mp hkey, rfl, rfl⟩
    · cases hwrite
  · rintro ⟨i, hslot, hkey, rfl, rfl⟩
    refine ⟨(digits 10 i.val, hex (d.slots.get i - base)), ?_, ?_⟩
    · exact List.mem_map_of_mem (mem_envKeys.mpr hkey)
    · rw [fileWrite_entry, if_pos hslot]

theorem envEntries_rangesOver (base execLo execHi : UInt64) (d : EnvDump) :
    GoMap.RangesOver (GoMap.ofWrites (envEntries base execLo execHi d))
      (envEntries base execLo execHi d) := by
  constructor
  · rw [envEntries, List.map_map]
    apply List.Nodup.map_on
    · intro i _ j _ heq
      have hi : i.val < 240 := i.isLt
      have hj : j.val < 240 := j.isLt
      have hdigits : digits 10 i.val = digits 10 j.val := heq
      have hslot := GoNumber.atoi_digits (show i.val < 2 ^ 63 by omega)
      rw [hdigits, GoNumber.atoi_digits (by omega), Option.some.injEq] at hslot
      apply Fin.ext
      omega
    · exact (List.nodup_finRange envSlots).filter _
  · rfl

/-! ### A dump of a table -/

/-- The words of the dump that belong to the table at `p`. -/
def EnvDump.DumpOf (d : EnvDump) (mem : UserMemory) (p : UInt64) : Prop :=
  ∀ i : Fin envSlots, i.val < jniSchema.length → tableWord mem p i.val = some (d.slots.get i)

section
variable {mem : UserMemory} {base execLo execHi p : UInt64} {d : EnvDump}

theorem probeRead_of_u64 {a v : UInt64} (h : u64 mem a = some v) : probeRead mem a = v := by
  simp only [u64, readAt] at h
  split at h
  · split at h
    next hlen =>
      rw [probeRead, UserMemory.word, if_pos hlen]
      exact Option.some.inj h
    · cases h
  · simp at h

theorem IsTable.readable (htable : IsTable mem execLo execHi p) {i : Nat}
    (hi : i < jniSchema.length) : ∃ v, tableWord mem p i = some v := by
  rcases Nat.lt_or_ge i 4 with hreserved | hfunction
  · exact ⟨0, htable.reserved i hreserved⟩
  · obtain ⟨v, hword, -⟩ := htable.functions i hfunction hi
    exact ⟨v, hword⟩

/-- The dump that the probe makes of a table. -/
theorem IsTable.dumpOf (htable : IsTable mem execLo execHi p)
    (hslots : ∀ i : Fin envSlots, d.slots.get i = probeRead mem (p + i.val.toUInt64 * 8)) :
    d.DumpOf mem p := by
  intro i hi
  obtain ⟨v, hword⟩ := htable.readable hi
  rw [hslots i, probeRead_of_u64 hword, hword]

theorem IsTable.dumpOf_emit {pid site reg : UInt32} {cand : UInt64} {reserved : Bool}
    (htable : IsTable mem execLo execHi d.table)
    (hemit : EnvProbe.emit pid mem site reg cand reserved = some d) : d.DumpOf mem d.table :=
  htable.dumpOf (EnvProbe.emit_slots hemit)

/-- In the part of a dump that is the table, the pointers into the executable
mapping are those of the function slots. -/
theorem IsTable.key_iff (htable : IsTable mem execLo execHi p) (hlow : 0 < execLo)
    (hdump : d.DumpOf mem p) {i : Fin envSlots} (hi : i.val < jniSchema.length) :
    (execLo ≤ d.slots.get i ∧ d.slots.get i < execHi) ↔ 4 ≤ i.val := by
  have hword := hdump i hi
  constructor
  · rintro ⟨hfrom, -⟩
    by_contra hreserved
    have hzero := htable.reserved i.val (by omega)
    rw [hword, Option.some.injEq] at hzero
    rw [hzero] at hfrom
    exact UInt64.not_le.mpr hlow hfrom
  · intro hfunction
    obtain ⟨v, hv, hrange⟩ := htable.functions i.val hfunction hi
    obtain rfl : d.slots.get i = v := Option.some.inj (hword.symm.trans hv)
    exact hrange

theorem IsTable.envWrites_iff (htable : IsTable mem execLo execHi p) (hlow : 0 < execLo)
    (hdump : d.DumpOf mem p) (w : UInt64 × Nat) :
    w ∈ (envEntries base execLo execHi d).filterMap fileWrite ↔ w ∈ tableWrites mem base p := by
  have hlen := length_jniSchema
  obtain ⟨off, slot⟩ := w
  rw [mem_envWrites, tableWrites, List.mem_map]
  constructor
  · rintro ⟨i, hi, hkey, rfl, rfl⟩
    refine ⟨i.val, mem_functionSlots.mpr ⟨(htable.key_iff hlow hdump hi).mp hkey, hi⟩, ?_⟩
    rw [hdump i hi, Option.getD_some]
  · rintro ⟨j, hj, heq⟩
    obtain ⟨hfunction, hj⟩ := mem_functionSlots.mp hj
    obtain ⟨i, rfl⟩ : ∃ i : Fin envSlots, i.val = j := ⟨⟨j, show j < 240 by omega⟩, rfl⟩
    rw [hdump i hj, Option.getD_some] at heq
    cases heq
    exact ⟨i, hj, (htable.key_iff hlow hdump hj).mpr hfunction, rfl, rfl⟩

/-- More than half of the words of the dump of a table point into the mapping. -/
theorem IsTable.envKeys_length (htable : IsTable mem execLo execHi p) (hlow : 0 < execLo)
    (hdump : d.DumpOf mem p) : envSlots ≤ 2 * (envKeys execLo execHi d).length := by
  have hlen := length_jniSchema
  have hsub : functionSlots.length ≤ ((envKeys execLo execHi d).map Fin.val).length := by
    apply List.Subperm.length_le
    apply (List.nodup_range' 1).subperm
    intro j hj
    obtain ⟨hfunction, hj⟩ := mem_functionSlots.mp hj
    obtain ⟨i, rfl⟩ : ∃ i : Fin envSlots, i.val = j := ⟨⟨j, show j < 240 by omega⟩, rfl⟩
    exact List.mem_map_of_mem (mem_envKeys.mpr ((htable.key_iff hlow hdump hj).mpr hfunction))
  have henv : envSlots = 240 := rfl
  rw [functionSlots, List.length_range', List.length_map] at hsub
  omega

end

/-- The words of a table are pairwise distinct. -/
def DistinctFunctions (mem : UserMemory) (p : UInt64) : Prop :=
  ∀ i ∈ functionSlots, ∀ j ∈ functionSlots, tableWord mem p i = tableWord mem p j → i = j

theorem functional_tableWrites {mem : UserMemory} {base execLo execHi p : UInt64}
    (htable : IsTable mem execLo execHi p) (hdistinct : DistinctFunctions mem p) :
    GoMap.Functional (tableWrites mem base p) := by
  intro off i j hi hj
  obtain ⟨i', hi', heqi⟩ := List.mem_map.mp hi
  obtain ⟨j', hj', heqj⟩ := List.mem_map.mp hj
  cases heqi
  obtain ⟨v, hv⟩ := htable.readable (mem_functionSlots.mp hi').2
  obtain ⟨u, hu⟩ := htable.readable (mem_functionSlots.mp hj').2
  have hoff := congrArg Prod.fst heqj
  have hslot : j' = j := congrArg Prod.snd heqj
  simp only [hv, hu, Option.getD_some] at hoff
  have huv : u = v := by
    have hadd := congrArg (fun x => x + base) hoff
    simpa only [UInt64.sub_add_cancel] using hadd
  rw [← hslot]
  exact hdistinct i hi' j' hj' (by rw [hv, hu, huv])

namespace Scenario

theorem tableWord_tableMemory {i : Nat} (hi : i < jniSchema.length) :
    tableWord tableMemory 0x1000 i =
      some (if i < 4 then 0 else 0x1000 + i.toUInt64 * 8) := by
  have hall : ∀ i < 233, tableWord tableMemory 0x1000 i =
      some (if i < 4 then 0 else 0x1000 + i.toUInt64 * 8) := by decide +kernel
  rw [length_jniSchema] at hi
  exact hall i hi

theorem isTable_tableMemory : IsTable tableMemory 0x1000 0x2000 0x1000 := by decide +kernel

theorem distinct_tableMemory : DistinctFunctions tableMemory 0x1000 := by
  intro i hi j hj heq
  obtain ⟨hi, hi'⟩ := mem_functionSlots.mp hi
  obtain ⟨hj, hj'⟩ := mem_functionSlots.mp hj
  have hlen := length_jniSchema
  rw [tableWord_tableMemory hi', tableWord_tableMemory hj', if_neg (by omega), if_neg (by omega),
    Option.some.injEq] at heq
  have hnat := congrArg UInt64.toNat heq
  have hbase : (0x1000 : UInt64).toNat = 0x1000 := rfl
  have height : (8 : UInt64).toNat = 8 := rfl
  simp only [UInt64.toNat_add, UInt64.toNat_mul, Nat.toUInt64_eq, UInt64.toNat_ofNat', hbase,
    height] at hnat
  omega

/-- A dump of the table and of the seven words behind it. -/
def tableDump : EnvDump :=
  ⟨1, 1, 1, 0, 0x3000, 0x1000,
    Vector.ofFn (fun i => probeRead tableMemory (0x1000 + i.val.toUInt64 * 8))⟩

theorem dumpOf_tableDump : tableDump.DumpOf tableMemory 0x1000 :=
  isTable_tableMemory.dumpOf (fun i => Vector.getElem_ofFn i.isLt)

end Scenario

end JniProbe
