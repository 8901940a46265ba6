import JniProbe.Loader.Offsets
import JniProbe.Loader.Trace

/-!
The offsets of all tables, and all entries of an offset file, are united into
one map from offset to slot. Nothing is lost, and the order of the visits does
not matter, exactly when no offset is contributed with two different slots.
-/

namespace JniProbe

open GoText GoFormat

/-- Some table holds, in a slot, the function at an offset. -/
def TableContributes (mem : UserMemory) (base : UInt64) (ts : List UInt64) (off : UInt64)
    (slot : Nat) : Prop :=
  ∃ p ∈ ts, (off, slot) ∈ tableWrites mem base p

/-- Some entry of the file is kept, and says which function lies at an offset. -/
def FileContributes (m : GoMap Bytes Bytes) (off : UInt64) (slot : Nat) : Prop :=
  ∃ k v, m.lookup k = some v ∧ fileWrite (k, v) = some (off, slot)

/-- No offset is contributed with two different slots. -/
def Unambiguous (contributes : UInt64 → Nat → Prop) : Prop :=
  ∀ off slot slot', contributes off slot → contributes off slot' → slot = slot'

/-- Whatever is contributed is in the map, and a session over the map takes an
event at the offset for that function. -/
structure Attributes (contributes : UInt64 → Nat → Prop) (out : Offsets) : Prop where
  sends : ∀ off slot, contributes off slot → out.lookup off = some slot
  events : ∀ (S : Session) off slot, S.offsets.toFinmap = out → contributes off slot →
    S.slotAt off = some slot

theorem Session.slotAt_eq_lookup {S : Session} {out : Offsets} (h : S.offsets.toFinmap = out)
    (off : UInt64) : S.slotAt off = out.lookup off := by
  rw [← h, Finmap.lookup_toFinmap]
  rfl

theorem Attributes.of_sends {contributes : UInt64 → Nat → Prop} {out : Offsets}
    (h : ∀ off slot, contributes off slot → out.lookup off = some slot) :
    Attributes contributes out := by
  constructor
  · exact h
  · intro S off slot hout hcontributes
    rw [Session.slotAt_eq_lookup hout, h off slot hcontributes]

theorem Attributes.unambiguous {contributes : UInt64 → Nat → Prop} {out : Offsets}
    (h : Attributes contributes out) : Unambiguous contributes := by
  intro off slot slot' hslot hslot'
  exact Option.some.inj ((h.sends off slot hslot).symm.trans (h.sends off slot' hslot'))

/-! ### Tables -/

theorem mem_tablesWrites {mem : UserMemory} {base : UInt64} {ts : List UInt64} {off : UInt64}
    {slot : Nat} :
    (off, slot) ∈ ts.flatMap (tableWrites mem base) ↔ TableContributes mem base ts off slot :=
  List.mem_flatMap

theorem functional_tablesWrites {mem : UserMemory} {base : UInt64} {ts : List UInt64}
    (h : Unambiguous (TableContributes mem base ts)) :
    GoMap.Functional (ts.flatMap (tableWrites mem base)) := by
  intro off slot slot' hslot hslot'
  exact h off slot slot' (mem_tablesWrites.mp hslot) (mem_tablesWrites.mp hslot')

/-! ### Entries of a file -/

theorem mem_fileWrites {m : GoMap Bytes Bytes} {order : List (Bytes × Bytes)}
    (h : GoMap.RangesOver m order) {off : UInt64} {slot : Nat} :
    (off, slot) ∈ order.filterMap fileWrite ↔ FileContributes m off slot := by
  rw [List.mem_filterMap]
  constructor
  · rintro ⟨⟨k, v⟩, hmem, hwrite⟩
    exact ⟨k, v, h.mem_iff.mp hmem, hwrite⟩
  · rintro ⟨k, v, hlookup, hwrite⟩
    exact ⟨(k, v), h.mem_iff.mpr hlookup, hwrite⟩

theorem functional_fileWrites {m : GoMap Bytes Bytes} (hm : Unambiguous (FileContributes m))
    {order : List (Bytes × Bytes)} (h : GoMap.RangesOver m order) :
    GoMap.Functional (order.filterMap fileWrite) := by
  intro off slot slot' hslot hslot'
  exact hm off slot slot' ((mem_fileWrites h).mp hslot) ((mem_fileWrites h).mp hslot')

/-- Go ranges over every map in some order. -/
def Visits (visit : GoMap Bytes Bytes → List (Bytes × Bytes)) : Prop :=
  ∀ m, GoMap.RangesOver m (visit m)

theorem exists_visits : ∃ visit, Visits visit := by
  choose visit hvisit using GoMap.exists_order (κ := Bytes) (ν := Bytes)
  exact ⟨visit, hvisit⟩

theorem offsetsFromFile_eq {raw : Bytes} {members : List (Bytes × Bytes)}
    (h : GoJson.unmarshal raw = some members) (visit : GoMap Bytes Bytes → List (Bytes × Bytes)) :
    offsetsFromFile (some raw) visit =
      some (GoMap.ofWrites ((visit (GoMap.ofWrites members)).filterMap fileWrite)) := by
  rw [offsetsFromFile, Option.bind_some, h, Option.map_some]

/-- Both unions lose no slot, in any order of the visits, exactly when what is
united is unambiguous. -/
theorem union_attributes_iff (fuel : Nat) (pid : Int) (mem : UserMemory)
    (ranges : List DataRange) (base execLo execHi : UInt64) :
    (∀ ts : List UInt64, tablesFound fuel mem ranges execLo execHi = some ts → ts ≠ [] →
      ∃ out, offsetsFromScan fuel pid mem ranges base execLo execHi = some (.ok out) ∧
        ((Attributes (TableContributes mem base ts) out ∧
            ∀ order, order.Perm (ts.flatMap (tableWrites mem base)) →
              GoMap.ofWrites order = out) ↔
          Unambiguous (TableContributes mem base ts))) ∧
    (∀ (raw : Bytes) (members : List (Bytes × Bytes)), GoJson.unmarshal raw = some members →
      ((∀ visit, Visits visit →
          ∃ out, offsetsFromFile (some raw) visit = some out ∧
            Attributes (FileContributes (GoMap.ofWrites members)) out ∧
            ∀ visit', Visits visit' → offsetsFromFile (some raw) visit' = some out) ↔
        Unambiguous (FileContributes (GoMap.ofWrites members)))) := by
  constructor
  · intro ts hfound hsome
    refine ⟨GoMap.ofWrites (ts.flatMap (tableWrites mem base)), ?_, ?_⟩
    · rw [offsetsFromScan_eq, hfound, Option.map_some, unionOf, if_neg hsome]
    · constructor
      · rintro ⟨hattributes, -⟩
        exact hattributes.unambiguous
      · intro hunambiguous
        have hfunctional := functional_tablesWrites hunambiguous
        constructor
        · apply Attributes.of_sends
          intro off slot hcontributes
          exact hfunctional.lookup (mem_tablesWrites.mpr hcontributes)
        · intro order hperm
          exact (hfunctional.ofWrites_congr (fun w => hperm.mem_iff.symm)).symm
  · intro raw members hmembers
    constructor
    · intro hall
      obtain ⟨visit, hvisit⟩ := exists_visits
      obtain ⟨out, -, hattributes, -⟩ := hall visit hvisit
      exact hattributes.unambiguous
    · intro hunambiguous visit hvisit
      have hfunctional := functional_fileWrites hunambiguous (hvisit (GoMap.ofWrites members))
      refine ⟨_, offsetsFromFile_eq hmembers visit, ?_, ?_⟩
      · apply Attributes.of_sends
        intro off slot hcontributes
        exact hfunctional.lookup ((mem_fileWrites (hvisit _)).mpr hcontributes)
      · intro visit' hvisit'
        rw [offsetsFromFile_eq hmembers visit', Option.some.injEq]
        apply Eq.symm
        apply hfunctional.ofWrites_congr
        rintro ⟨off, slot⟩
        rw [mem_fileWrites (hvisit _), mem_fileWrites (hvisit' _)]

namespace Scenario

/-- Two functions with one implementation. -/
def sharedFile : Bytes := str "\x7b\"4\": \"0x10\", \"5\": \"0x10\"\x7d"

/-- Two functions, each with its own. -/
def separateFile : Bytes := str "\x7b\"4\": \"0x10\", \"5\": \"0x20\"\x7d"

/-- A mapping with one table, whose words are their own addresses. -/
def tableRange : DataRange := ⟨0x1000, 0x1000 + 8 * 233, by decide⟩

def tableMemory : UserMemory := UserMemory.ofWords (fun a => if a < 0x1000 + 32 then 0 else a)

theorem tablesFound_tableMemory :
    tablesFound 2 tableMemory [tableRange] 0x1000 0x2000 = some [0x1000] := by decide +kernel

end Scenario

open Scenario in
theorem union_attributes_iff_separate :
    (∃ out, offsetsFromScan 2 1 tableMemory [tableRange] 0x1000 0x1000 0x2000 = some (.ok out) ∧
      ((Attributes (TableContributes tableMemory 0x1000 [0x1000]) out ∧
          ∀ order, order.Perm ([0x1000].flatMap (tableWrites tableMemory 0x1000)) →
            GoMap.ofWrites order = out) ↔
        Unambiguous (TableContributes tableMemory 0x1000 [0x1000]))) ∧
    ((∀ visit, Visits visit →
        ∃ out, offsetsFromFile (some separateFile) visit = some out ∧
          Attributes (FileContributes
            (GoMap.ofWrites [(str "4", str "0x10"), (str "5", str "0x20")])) out ∧
          ∀ visit', Visits visit' → offsetsFromFile (some separateFile) visit' = some out) ↔
      Unambiguous (FileContributes
        (GoMap.ofWrites [(str "4", str "0x10"), (str "5", str "0x20")]))) :=
  ⟨(union_attributes_iff 2 1 tableMemory [tableRange] 0x1000 0x1000 0x2000).1 [0x1000]
      tablesFound_tableMemory (List.cons_ne_nil _ _),
    (union_attributes_iff 2 1 tableMemory [tableRange] 0x1000 0x1000 0x2000).2 separateFile _
      (by decide +kernel)⟩

open Scenario in
/-- Slots 4 and 5 share an offset: one of them is lost. -/
theorem shared_implementation_loses_slot :
    ¬ ∀ (raw : Bytes) (members : List (Bytes × Bytes)), GoJson.unmarshal raw = some members →
      ∀ visit, Visits visit → ∃ out, offsetsFromFile (some raw) visit = some out ∧
        Attributes (FileContributes (GoMap.ofWrites members)) out := by
  intro hclaim
  obtain ⟨visit, hvisit⟩ := exists_visits
  have hmembers : GoJson.unmarshal sharedFile =
      some [(str "4", str "0x10"), (str "5", str "0x10")] := by decide +kernel
  obtain ⟨out, -, hattributes⟩ := hclaim sharedFile _ hmembers visit hvisit
  have hfour : FileContributes (GoMap.ofWrites [(str "4", str "0x10"), (str "5", str "0x10")])
      0x10 4 := ⟨str "4", str "0x10", by decide +kernel, by decide +kernel⟩
  have hfive : FileContributes (GoMap.ofWrites [(str "4", str "0x10"), (str "5", str "0x10")])
      0x10 5 := ⟨str "5", str "0x10", by decide +kernel, by decide +kernel⟩
  exact absurd (hattributes.unambiguous 0x10 4 5 hfour hfive) (by decide)

end JniProbe
