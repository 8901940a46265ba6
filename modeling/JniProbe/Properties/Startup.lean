import JniProbe.Loader.Startup
import JniProbe.Properties.OffsetFile
import JniProbe.Properties.TableScan
import JniProbe.System.TwoSessions

/-!
From the start of the program to its events. When the maps and the memory of the
target are what they are on a device, and no two slots share a function, the
program starts, and every entry event is taken for the slot of a table whose word
is the address that was called.
-/

namespace JniProbe

open GoText GoFormat

/-! ### Entry events come from probed offsets -/

theorem Machine.ring_offsets (S : Session) (att : Attachment) (acts : List Action) :
    ∀ r ∈ (Machine.run S att acts).ring, r.evt.kind = 0 → r.evt.ip - S.base ∈ S.offsets := by
  induction acts using List.reverseRecOn with
  | nil =>
      intro r hr
      cases hr
  | append_singleton acts a ih =>
      rw [Machine.run, Runs.run_concat]
      change ∀ r ∈ (Machine.step S att (Machine.run S att acts) a).ring, _
      intro r hr hkind
      cases a with
      | enter tid off hit =>
          rcases Machine.enter_cases S att (Machine.run S att acts) tid off hit with
            ⟨hsame, -⟩ | ⟨raw, hlive, -, hring, -⟩
          · rw [Machine.step, hsame] at hr
            exact ih r hr hkind
          · rw [Machine.step, hring, List.mem_append, List.mem_singleton] at hr
            rcases hr with hr | rfl
            · exact ih r hr hkind
            · have hoff : off ∈ S.offsets := by
                rw [Session.entryLive, Bool.and_eq_true, decide_eq_true_eq] at hlive
                exact hlive.1
              have hip : (Machine.enterRecord S (Machine.run S att acts) tid off hit raw).evt.ip =
                  (Machine.entryCtx S tid off hit).ip := entryEvt_ip _ _ _ _
              rw [hip, Machine.entryCtx_offset]
              exact hoff
      | leave tid hit =>
          rcases Machine.leave_cases S att (Machine.run S att acts) tid hit with
            ⟨hsame, -⟩ | ⟨call, rest, raw, -, -, -, hring, -⟩
          · rw [Machine.step, hsame] at hr
            exact ih r hr hkind
          · rw [Machine.step, hring, List.mem_append, List.mem_singleton] at hr
            rcases hr with hr | rfl
            · exact ih r hr hkind
            · cases hkind

/-! ### One table is enough -/

/-- A table whose functions are told apart has an offset for each of them. -/
theorem length_functionSlots_le_len {mem : UserMemory} {base : UInt64} {ts : List UInt64}
    {p : UInt64} (hp : p ∈ ts) (hunambiguous : Unambiguous (TableContributes mem base ts)) :
    functionSlots.length ≤ (GoMap.ofWrites (ts.flatMap (tableWrites mem base))).len := by
  have hnodup : ((tableWrites mem base p).map Prod.fst).Nodup := by
    rw [tableWrites, List.map_map]
    apply List.Nodup.map_on _ List.nodup_range'
    intro i hi j hj heq
    apply hunambiguous _ i j ⟨p, hp, List.mem_map_of_mem hi⟩
    refine ⟨p, hp, List.mem_map.mpr ⟨j, hj, ?_⟩⟩
    exact Prod.ext heq.symm rfl
  have hlength : ((tableWrites mem base p).map Prod.fst).length = functionSlots.length := by
    rw [List.length_map, tableWrites, List.length_map]
  rw [← hlength]
  apply GoMap.length_le_len hnodup
  intro off hoff
  obtain ⟨⟨o, slot⟩, hmem, rfl⟩ := List.mem_map.mp hoff
  have hlookup := (functional_tablesWrites hunambiguous).lookup
    (mem_tablesWrites.mpr ⟨p, hp, hmem⟩)
  exact Finmap.mem_of_lookup_eq_some hlookup

/-! ### A target as it is on a device -/

/-- The options choose a process and no offset file, the maps do not change, the
data mappings are aligned, null is no code, and the tables tell the functions
apart. -/
structure RegularTarget (compile : Bytes → Option (Bytes → Bool)) (c : Options) (r : StartReads)
    (pid : Int) (text : Bytes) (mem : UserMemory) (b : LibartBase) (ranges : List DataRange) :
    Prop where
  chosen : startPid c r = .ok pid
  auto : c.offsets = [] ∨ c.offsets = str "auto"
  scanMaps : r.scanMaps pid = .ok text
  dataMaps : r.dataMaps pid = .ok text
  startMaps : r.startMaps pid = .ok text
  readable : r.mem pid = .ok mem
  mapped : libartBase pid (.ok text) = .ok b
  data : libartDataRanges (.ok text) = .ok ranges
  regular : ∀ rg ∈ ranges, rg.Regular
  null : ¬ (b.execLo ≤ 0 ∧ 0 < b.execHi)
  found : allTables mem ranges b.execLo b.execHi ≠ []
  unambiguous :
    Unambiguous (TableContributes mem b.base (allTables mem ranges b.execLo b.execHi))
  filters : (newFilters compile c.filterOptions).isSome = true

section Target

variable {compile : Bytes → Option (Bytes → Bool)} {c : Options} {r : StartReads} {pid : Int}
  {text : Bytes} {mem : UserMemory} {b : LibartBase} {ranges : List DataRange}

/-- The offsets that the search comes to. -/
theorem RegularTarget.startOffsets (h : RegularTarget compile c r pid text mem b ranges) :
    ∃ enough, ∀ fuel, enough ≤ fuel → startOffsets fuel c pid r =
      some (.ok (GoMap.ofWrites
        ((allTables mem ranges b.execLo b.execHi).flatMap (tableWrites mem b.base)))) := by
  obtain ⟨enough, result, hscan, -, hresult⟩ :=
    scan_eq_exhaustive pid mem ranges b.base b.execLo b.execHi h.regular
  refine ⟨enough, ?_⟩
  intro fuel hfuel
  have hfound : scanOffsets fuel pid r = some result := by
    simp only [scanOffsets, h.scanMaps, h.mapped, h.readable, h.dataMaps, h.data]
    exact hscan fuel hfuel
  rw [JniProbe.startOffsets, if_pos h.auto, hfound, hresult h.null, unionOf, if_neg h.found]
  rfl

theorem RegularTarget.startProbe (h : RegularTarget compile c r pid text mem b ranges) :
    ∃ enough filters, ∀ fuel, enough ≤ fuel → startProbe compile fuel c r =
      some (.ok ⟨filters, GoMap.ofWrites
        ((allTables mem ranges b.execLo b.execHi).flatMap (tableWrites mem b.base)), b.base⟩) := by
  obtain ⟨enough, hoffsets⟩ := h.startOffsets
  obtain ⟨filters, hfilters⟩ := Option.isSome_iff_exists.mp h.filters
  obtain ⟨p, hp⟩ := List.exists_mem_of_ne_nil _ h.found
  refine ⟨enough, filters, ?_⟩
  intro fuel hfuel
  have hmany : ¬ (GoMap.ofWrites ((allTables mem ranges b.execLo b.execHi).flatMap
      (tableWrites mem b.base))).len < 100 := by
    have hlen := length_functionSlots_le_len hp h.unambiguous
    have hslots : functionSlots.length = 229 := by
      rw [functionSlots, List.length_range', length_jniSchema]
    omega
  have hwith : startWith compile c pid r (GoMap.ofWrites
      ((allTables mem ranges b.execLo b.execHi).flatMap (tableWrites mem b.base))) =
      .ok ⟨filters, GoMap.ofWrites
        ((allTables mem ranges b.execLo b.execHi).flatMap (tableWrites mem b.base)), b.base⟩ := by
    simp only [startWith, hmany, if_false, h.startMaps, h.mapped, hfilters]
  simp only [JniProbe.startProbe, h.chosen, hoffsets fuel hfuel, Option.map_some, Except.bind,
    hwith]

theorem RegularTarget.slotAt_iff (h : RegularTarget compile c r pid text mem b ranges)
    {S : Session} (hoffsets : S.offsets.toFinmap = GoMap.ofWrites
      ((allTables mem ranges b.execLo b.execHi).flatMap (tableWrites mem b.base)))
    (hbase : S.base = b.base) (v : UInt64) (slot : Nat) :
    S.slotAt (v - S.base) = some slot ↔
      ∃ p ∈ allTables mem ranges b.execLo b.execHi, slot ∈ functionSlots ∧
        tableWord mem p slot = some v := by
  have htable {p : UInt64} (hp : p ∈ allTables mem ranges b.execLo b.execHi) :
      IsTable mem b.execLo b.execHi p := by
    obtain ⟨rg, -, hmem⟩ := List.mem_flatMap.mp hp
    simpa using (List.mem_filter.mp hmem).2
  rw [Session.slotAt_eq_lookup hoffsets, hbase,
    (functional_tablesWrites h.unambiguous).lookup_iff, mem_tablesWrites]
  constructor
  · rintro ⟨p, hp, hwrite⟩
    obtain ⟨i, hi, heq⟩ := List.mem_map.mp hwrite
    obtain ⟨hoff, rfl⟩ := Prod.mk.inj heq
    obtain ⟨w, hword⟩ := (htable hp).readable (mem_functionSlots.mp hi).2
    rw [hword, Option.getD_some, UInt64.sub_left_inj] at hoff
    exact ⟨p, hp, hi, hoff ▸ hword⟩
  · rintro ⟨p, hp, hi, hword⟩
    refine ⟨p, hp, List.mem_map.mpr ⟨slot, hi, ?_⟩⟩
    rw [hword]
    rfl

end Target

/-- Such a target is started on. The session finds for a called address the slot
whose word it is in a table, and every entry event of every run, with whatever
probes attached and events lost, is one of such an address. -/
theorem regular_target_starts {compile : Bytes → Option (Bytes → Bool)} {c : Options}
    {r : StartReads} {pid : Int} {text : Bytes} {mem : UserMemory} {b : LibartBase}
    {ranges : List DataRange} (h : RegularTarget compile c r pid text mem b ranges) :
    ∃ enough st, (∀ fuel, enough ≤ fuel → startProbe compile fuel c r = some (.ok st)) ∧
      ∀ S, st.Opens c S →
        (∀ v slot, S.slotAt (v - S.base) = some slot ↔
          ∃ p ∈ allTables mem ranges b.execLo b.execHi, slot ∈ functionSlots ∧
            tableWord mem p slot = some v) ∧
        ∀ att acts, ∀ e ∈ (Machine.run S att acts).ring, e.evt.kind = 0 →
          ∃ slot, S.slotAt (e.evt.ip - S.base) = some slot ∧
            ∃ p ∈ allTables mem ranges b.execLo b.execHi, slot ∈ functionSlots ∧
              tableWord mem p slot = some e.evt.ip := by
  obtain ⟨enough, filters, hstart⟩ := h.startProbe
  refine ⟨enough, _, hstart, ?_⟩
  intro S hopens
  have hslot := h.slotAt_iff hopens.offsets hopens.base
  refine ⟨hslot, ?_⟩
  intro att acts e he hkind
  have hoff := Machine.ring_offsets S att acts e he hkind
  obtain ⟨slot, hat⟩ := Option.isSome_iff_exists.mp ((S.mem_offsets_iff _).mp hoff)
  exact ⟨slot, hat, (hslot _ slot).mp hat⟩

/-! ### A device with one table -/

namespace Scenario

/-- A code mapping and a data mapping of libart. -/
def deviceMaps : Bytes :=
  str "2000-3000 r-xp 00001000 fd:00 7 /apex/com.android.art/lib64/libart.so\n" ++
  str "10000-11000 rw-p 0000f000 fd:00 7 /apex/com.android.art/lib64/libart.so\n"

/-- A table at the begin of the data mapping. -/
def deviceMemory : UserMemory :=
  UserMemory.ofWords (fun a => if a < 0x10020 then 0 else a - 0xE000)

def deviceReads : StartReads where
  procs := .ok []
  cmdline _ := none
  scanMaps _ := .ok deviceMaps
  mem _ := .ok deviceMemory
  dataMaps _ := .ok deviceMaps
  startMaps _ := .ok deviceMaps
  file _ := none
  visit _ := []

def deviceOptions : Options := { Options.default with pid := 7 }

def deviceRange : DataRange := ⟨0x10000, 0x11000, by decide⟩

theorem libartBase_device : libartBase 7 (.ok deviceMaps) = .ok ⟨0x1000, 0x2000, 0x3000⟩ := by
  have hfold : (split 10 deviceMaps).foldl LibartBase.step ⟨0, 0, 0⟩ =
      ⟨0x1000, 0x2000, 0x3000⟩ := by decide +kernel
  rw [libartBase, hfold]
  rfl

theorem libartDataRanges_device : libartDataRanges (.ok deviceMaps) = .ok [deviceRange] := by
  have hranges : ((split 10 deviceMaps).filterMap dataRange).map (fun r => (r.lo, r.hi)) =
      [(0x10000, 0x11000)] := by decide +kernel
  have hone : (split 10 deviceMaps).filterMap dataRange = [deviceRange] := by
    apply List.map_injective_iff.mpr _ (hranges.trans rfl)
    rintro ⟨lo, hi, h⟩ ⟨lo', hi', h'⟩ heq
    cases heq
    rfl
  rw [libartDataRanges, Except.map, hone]

theorem allTables_device :
    allTables deviceMemory [deviceRange] 0x2000 0x3000 = [0x10000] := by decide +kernel

theorem tableWord_device {i : Nat} (hi : i ∈ functionSlots) :
    tableWord deviceMemory 0x10000 i = some (0x2000 + i.toUInt64 * 8) := by
  have hall : ∀ i : Fin 229,
      tableWord deviceMemory 0x10000 (i.val + 4) = some (0x2000 + (i.val + 4).toUInt64 * 8) := by
    decide +kernel
  obtain ⟨hlow, hhigh⟩ := mem_functionSlots.mp hi
  rw [length_jniSchema] at hhigh
  have hword := hall ⟨i - 4, by omega⟩
  rwa [Nat.sub_add_cancel hlow] at hword

theorem regularTarget_device : RegularTarget (fun _ => none) deviceOptions deviceReads 7 deviceMaps
    deviceMemory ⟨0x1000, 0x2000, 0x3000⟩ [deviceRange] where
  chosen := rfl
  auto := Or.inr rfl
  scanMaps := rfl
  dataMaps := rfl
  startMaps := rfl
  readable := rfl
  mapped := libartBase_device
  data := libartDataRanges_device
  regular := by
    intro rg hrg
    rw [List.mem_singleton.mp hrg]
    refine ⟨by decide, by decide, ?_⟩
    rw [length_jniSchema]
    decide
  null := by decide
  found := by
    rw [allTables_device]
    exact List.cons_ne_nil _ _
  unambiguous := by
    rw [allTables_device]
    rintro off i j ⟨p, hp, hi⟩ ⟨p', hp', hj⟩
    rw [List.mem_singleton.mp hp] at hi
    rw [List.mem_singleton.mp hp'] at hj
    obtain ⟨i', hi', heqi⟩ := List.mem_map.mp hi
    obtain ⟨j', hj', heqj⟩ := List.mem_map.mp hj
    cases heqi
    obtain ⟨hoff, rfl⟩ := Prod.mk.inj heqj
    rw [tableWord_device hi', tableWord_device hj', Option.getD_some, Option.getD_some,
      UInt64.sub_left_inj] at hoff
    have hnat := congrArg UInt64.toNat hoff
    have hlen := length_jniSchema
    have hi' := (mem_functionSlots.mp hi').2
    have hj' := (mem_functionSlots.mp hj').2
    have hbase : (0x2000 : UInt64).toNat = 0x2000 := rfl
    have height : (8 : UInt64).toNat = 8 := rfl
    simp only [UInt64.toNat_add, UInt64.toNat_mul, Nat.toUInt64_eq, UInt64.toNat_ofNat', hbase,
      height] at hnat
    omega
  filters := by decide +kernel

end Scenario

open Scenario in
/-- The function at `0x2020` is that of slot 4. -/
theorem regular_target_starts_device :
    ∃ enough st, (∀ fuel, enough ≤ fuel →
        startProbe (fun _ => none) fuel deviceOptions deviceReads = some (.ok st)) ∧
      ∀ S, st.Opens deviceOptions S → S.slotAt (0x2020 - S.base) = some 4 := by
  obtain ⟨enough, st, hstart, hopens⟩ := regular_target_starts regularTarget_device
  refine ⟨enough, st, hstart, ?_⟩
  intro S hS
  have hslot : 4 ∈ functionSlots := by decide +kernel
  rw [(hopens S hS).1 0x2020 4, allTables_device]
  exact ⟨0x10000, List.mem_singleton_self _, hslot, tableWord_device hslot⟩

end JniProbe
