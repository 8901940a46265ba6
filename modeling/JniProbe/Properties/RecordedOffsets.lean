import JniProbe.Properties.Startup

/-!
Offsets recorded once. `env` writes the offsets of one process to a file, and a
later `runProbe` reads them for a process in which libart lies elsewhere, because
it is told to or because its own search failed. What the session then knows are
the functions of that process.
-/

namespace JniProbe

open GoText GoFormat

/-- `env` dumps a table whose functions differ, after dumps that it skips. -/
structure Recording (base : UInt64) (mem : UserMemory) (p : UInt64) where
  libartBase : UInt32 → Option (UInt64 × UInt64 × UInt64)
  skipped : List EnvDump
  dump : EnvDump
  later : List EnvDump
  execLo : UInt64
  execHi : UInt64
  low : 0 < execLo
  table : IsTable mem execLo execHi p
  distinct : DistinctFunctions mem p
  dumped : dump.DumpOf mem p
  mapped : libartBase dump.pid = some (base, execLo, execHi)
  unfit : ∀ e ∈ skipped, envFile (libartBase e.pid) e = none

/-- The file that it leaves. -/
def Recording.file {base : UInt64} {mem : UserMemory} {p : UInt64} (saved : Recording base mem p) :
    Option Bytes :=
  runEnv saved.libartBase (saved.skipped ++ saved.dump :: saved.later)

/-- The functions of one table lie as far from one base as those of another
from another. -/
def Relocated (base : UInt64) (mem : UserMemory) (p base' : UInt64) (mem' : UserMemory)
    (p' : UInt64) : Prop :=
  ∀ i ∈ functionSlots, ∀ v, tableWord mem p i = some v →
    tableWord mem' p' i = some (v - base + base')

section Recording

variable {base p : UInt64} {mem : UserMemory}

/-- The file is read back as the offsets of the table. -/
theorem Recording.offsetsFromFile (saved : Recording base mem p)
    {visit : GoMap Bytes Bytes → List (Bytes × Bytes)} (hvisit : Visits visit) :
    offsetsFromFile saved.file visit = some (GoMap.ofWrites (tableWrites mem base p)) := by
  have hcount := saved.table.envKeys_length saved.low saved.dumped
  have hsome : envKeys saved.execLo saved.execHi saved.dump ≠ [] := by
    intro hnil
    rw [hnil] at hcount
    exact absurd hcount (by decide)
  have hfile : saved.file = some (envText base saved.execLo saved.execHi saved.dump) := by
    rw [Recording.file, runEnv, List.findSome?_append, List.findSome?_eq_none_iff.mpr saved.unfit,
      Option.none_or, List.findSome?_cons, saved.mapped, envFile, if_neg (by omega)]
  have hread : GoJson.unmarshal (envText base saved.execLo saved.execHi saved.dump) = _ :=
    unmarshal_envText hsome
  rw [hfile, offsetsFromFile_eq hread visit, Option.some_inj, eq_comm]
  apply (functional_tableWrites saved.table saved.distinct).ofWrites_congr
  rintro ⟨off, slot⟩
  rw [← saved.table.envWrites_iff saved.low saved.dumped, mem_fileWrites (hvisit _),
    mem_fileWrites (envEntries_rangesOver base saved.execLo saved.execHi saved.dump)]

/-- There are enough of them to start on. -/
theorem Recording.len_offsets (saved : Recording base mem p) :
    ¬ (GoMap.ofWrites (tableWrites mem base p)).len < 100 := by
  have hunambiguous : Unambiguous (TableContributes mem base [p]) := by
    rintro off i j ⟨q, hq, hi⟩ ⟨q', hq', hj⟩
    rw [List.mem_singleton.mp hq] at hi
    rw [List.mem_singleton.mp hq'] at hj
    exact functional_tableWrites saved.table saved.distinct off i j hi hj
  have hlen := length_functionSlots_le_len List.mem_cons_self hunambiguous
  rw [List.flatMap_singleton] at hlen
  have hslots : functionSlots.length = 229 := by
    rw [functionSlots, List.length_range', length_jniSchema]
  omega

end Recording

/-- A later start that takes its offsets from the file, which is named or is
what remains when the search fails. -/
structure LaterStart (compile : Bytes → Option (Bytes → Bool)) (fuel : Nat) (c : Options)
    (r : StartReads) (pid : Int) (file : Option Bytes) (b : LibartBase) : Prop where
  chosen : startPid c r = .ok pid
  source : (c.offsets ≠ [] ∧ c.offsets ≠ str "auto" ∧ r.file c.offsets = file) ∨
    ((c.offsets = [] ∨ c.offsets = str "auto") ∧ r.file defaultOffsets = file ∧
      ∃ message, scanOffsets fuel pid r = some (.error message))
  visits : Visits r.visit
  mapped : libartBase pid (r.startMaps pid) = .ok b
  filters : (newFilters compile c.filterOptions).isSome = true

section LaterStart

variable {compile : Bytes → Option (Bytes → Bool)} {fuel : Nat} {c : Options} {r : StartReads}
  {pid : Int} {file : Option Bytes} {b : LibartBase}

theorem LaterStart.startOffsets (h : LaterStart compile fuel c r pid file b) {offsets : Offsets}
    (hfile : offsetsFromFile file r.visit = some offsets) :
    startOffsets fuel c pid r = some (.ok offsets) := by
  have hread {path : Bytes} (hpath : r.file path = file) : readOffsets r path = .ok offsets := by
    rw [readOffsets, hpath, hfile]
  rcases h.source with ⟨hsome, hauto, hpath⟩ | ⟨hauto, hpath, message, hfail⟩
  · rw [JniProbe.startOffsets, if_neg (not_or.mpr ⟨hsome, hauto⟩), hread hpath]
  · rw [JniProbe.startOffsets, if_pos hauto, hfail, Option.map_some, hread hpath]

end LaterStart

/-- Offsets recorded in one process serve every process of the device: the
program starts, and the slot it finds for a called address is the one whose
function lies there in the process that is traced. -/
theorem recorded_offsets_start {compile : Bytes → Option (Bytes → Bool)} {fuel : Nat} {c : Options}
    {r : StartReads} {pid : Int} {b : LibartBase} {base p p' : UInt64} {mem mem' : UserMemory}
    (saved : Recording base mem p) (hstart : LaterStart compile fuel c r pid saved.file b)
    (hmoved : Relocated base mem p b.base mem' p') :
    ∃ st, startProbe compile fuel c r = some (.ok st) ∧
      ∀ S, st.Opens c S → ∀ v slot, S.slotAt (v - S.base) = some slot ↔
        slot ∈ functionSlots ∧ tableWord mem' p' slot = some v := by
  obtain ⟨filters, hfilters⟩ := Option.isSome_iff_exists.mp hstart.filters
  have hoffsets := hstart.startOffsets (saved.offsetsFromFile hstart.visits)
  have hwith : startWith compile c pid r (GoMap.ofWrites (tableWrites mem base p)) =
      .ok ⟨filters, GoMap.ofWrites (tableWrites mem base p), b.base⟩ := by
    simp only [startWith, saved.len_offsets, if_false, hstart.mapped, hfilters]
  refine ⟨⟨filters, GoMap.ofWrites (tableWrites mem base p), b.base⟩, ?_, ?_⟩
  · simp only [startProbe, hstart.chosen, hoffsets, Option.map_some, Except.bind, hwith]
  · intro S hopens v slot
    have hbase : S.base = b.base := hopens.base
    rw [Session.slotAt_eq_lookup hopens.offsets, hbase,
      (functional_tableWrites saved.table saved.distinct).lookup_iff, tableWrites, List.mem_map]
    constructor
    · rintro ⟨i, hi, heq⟩
      obtain ⟨hoff, rfl⟩ := Prod.mk.inj heq
      obtain ⟨w, hword⟩ := saved.table.readable (mem_functionSlots.mp hi).2
      rw [hword, Option.getD_some] at hoff
      refine ⟨hi, ?_⟩
      rw [hmoved i hi w hword, hoff, UInt64.sub_add_cancel]
    · rintro ⟨hslot, hword'⟩
      obtain ⟨w, hword⟩ := saved.table.readable (mem_functionSlots.mp hslot).2
      refine ⟨slot, hslot, ?_⟩
      rw [hmoved slot hslot w hword, Option.some_inj] at hword'
      rw [hword, Option.getD_some, ← hword', UInt64.add_sub_cancel]

namespace Scenario

/-- The table of one process, whose libart begins at 0. -/
def savedTable : Recording 0 tableMemory 0x1000 where
  libartBase _ := some (0, 0x1000, 0x2000)
  skipped := []
  dump := tableDump
  later := []
  execLo := 0x1000
  execHi := 0x2000
  low := by decide
  table := isTable_tableMemory
  distinct := distinct_tableMemory
  dumped := dumpOf_tableDump
  mapped := rfl
  unfit e he := absurd he List.not_mem_nil

/-- A process of the device, whose memory cannot be read. -/
def closedReads (visit : GoMap Bytes Bytes → List (Bytes × Bytes)) : StartReads :=
  { deviceReads with
    mem := fun _ => .error (str "permission denied")
    file := fun _ => savedTable.file
    visit := visit }

theorem relocated_device : Relocated 0 tableMemory 0x1000 0x1000 deviceMemory 0x10000 := by
  intro i hi v hv
  obtain ⟨hlow, hhigh⟩ := mem_functionSlots.mp hi
  rw [tableWord_tableMemory hhigh, if_neg (by omega), Option.some_inj] at hv
  have hsum : (0x2000 : UInt64) + i.toUInt64 * 8 = 0x1000 + i.toUInt64 * 8 + 0x1000 := by
    rw [UInt64.add_comm 0x1000, UInt64.add_assoc]
    exact UInt64.add_comm _ _
  rw [tableWord_device hi, ← hv, UInt64.sub_zero, hsum]

end Scenario

open Scenario in
/-- The search fails and the function at `0x2020` is that of slot 4. -/
theorem recorded_offsets_start_device : ∃ visit st,
    startProbe (fun _ => none) 0 deviceOptions (closedReads visit) = some (.ok st) ∧
      ∀ S, st.Opens deviceOptions S → S.slotAt (0x2020 - S.base) = some 4 := by
  obtain ⟨visit, hvisit⟩ := exists_visits
  have hfile : (closedReads visit).file defaultOffsets = savedTable.file := by
    rw [closedReads]
  have hmaps : libartBase 7 ((closedReads visit).scanMaps 7) = _ := libartBase_device
  have hfails : scanOffsets 0 7 (closedReads visit) = some (.error (str "permission denied")) := by
    rw [scanOffsets, hmaps]
    rfl
  have hlater : LaterStart (fun _ => none) 0 deviceOptions (closedReads visit) 7 savedTable.file
      ⟨0x1000, 0x2000, 0x3000⟩ :=
    ⟨rfl, Or.inr ⟨Or.inr rfl, hfile, _, hfails⟩, hvisit, libartBase_device, by decide +kernel⟩
  obtain ⟨st, hst, hopens⟩ := recorded_offsets_start savedTable hlater relocated_device
  refine ⟨visit, st, hst, ?_⟩
  intro S hS
  have hslot : 4 ∈ functionSlots := by decide +kernel
  exact (hopens S hS 0x2020 4).mpr ⟨hslot, tableWord_device hslot⟩

end JniProbe
