import JniProbe.Loader.Offsets
import Mathlib.Data.List.Sort

/-!
The search for function tables skips a whole table after each hit. It finds
what a test of every aligned position finds, unless the null pointer counts as
a code pointer: only then can a second table begin inside the first.
-/

namespace JniProbe

open GoText GoFormat

/-! ### Testing every position -/

namespace DataRange

/-- Mappings begin and end at words, and a whole table fits between the end
and the last address. -/
structure Regular (r : DataRange) : Prop where
  lo_aligned : r.lo.toNat % 8 = 0
  hi_aligned : r.hi.toNat % 8 = 0
  below : r.hi.toNat < 2 ^ 64 - 8 * jniSchema.length

/-- The aligned positions of the range with room for a table, in order. -/
def positions (r : DataRange) : List UInt64 :=
  ((List.range' r.lo.toNat (r.hi.toNat - r.lo.toNat)).filter (fun p =>
    p % 8 = 0 ∧ p + 8 * jniSchema.length ≤ r.hi.toNat)).map Nat.toUInt64

/-- How many positions have room for a table. -/
def places (r : DataRange) : Nat := (r.hi.toNat - r.lo.toNat) / 8 + 1 - jniSchema.length

def place (r : DataRange) (k : Nat) : UInt64 := r.lo + k.toUInt64 * 8

theorem place_add (r : DataRange) (k d : Nat) : r.place (k + d) = r.place k + d.toUInt64 * 8 := by
  have hsum : (k + d).toUInt64 = k.toUInt64 + d.toUInt64 := UInt64.ofNat_add k d
  rw [place, place, hsum, UInt64.add_mul, UInt64.add_assoc]

theorem place_toNat (r : DataRange) {k : Nat} (hk : r.lo.toNat + 8 * k ≤ r.hi.toNat) :
    (r.place k).toNat = r.lo.toNat + 8 * k := by
  have hhi := r.hi.toNat_lt
  have hk' : k.toUInt64.toNat = k := by
    rw [Nat.toUInt64_eq, UInt64.toNat_ofNat']
    omega
  have hmul : (k.toUInt64 * 8).toNat = 8 * k := by
    have height : (8 : UInt64).toNat = 8 := rfl
    rw [UInt64.toNat_mul, hk', height]
    omega
  rw [place, UInt64.toNat_add, hmul]
  omega

theorem ordered_toNat (r : DataRange) : r.lo.toNat ≤ r.hi.toNat :=
  UInt64.le_iff_toNat_le.mp r.ordered

/-- The words of a range, as the loop counts them. -/
theorem positions_eq (r : DataRange) (h : r.Regular) :
    r.positions = (List.range' 0 r.places).map r.place := by
  have hord := r.ordered_toNat
  have hlo := h.lo_aligned
  have hlen := length_jniSchema
  have hnat : (List.range' r.lo.toNat (r.hi.toNat - r.lo.toNat)).filter (fun p =>
      p % 8 = 0 ∧ p + 8 * jniSchema.length ≤ r.hi.toNat) =
      (List.range' 0 r.places).map (fun k => r.lo.toNat + 8 * k) := by
    refine List.Perm.eq_of_pairwise ?_ ((List.pairwise_lt_range' 1).filter _) ?_ ?_
    · intro a b _ _ hab hba
      omega
    · rw [List.pairwise_map]
      exact (List.pairwise_lt_range' 1).imp (by omega)
    · rw [List.perm_ext_iff_of_nodup]
      · intro p
        simp only [List.mem_filter, List.mem_range'_1, decide_eq_true_eq, List.mem_map, places]
        constructor
        · rintro ⟨⟨hfrom, hto⟩, haligned, hroom⟩
          exact ⟨(p - r.lo.toNat) / 8, by omega, by omega⟩
        · rintro ⟨k, hk, rfl⟩
          omega
      · exact (List.nodup_range' 1).filter _
      · apply (List.nodup_range' 1).map
        intro a b hab
        simp only at hab
        omega
  rw [positions, hnat, List.map_map]
  apply List.map_congr_left
  intro k hk
  have hplaces : k < r.places := by simpa using (List.mem_range'_1.mp hk).2
  rw [places] at hplaces
  apply UInt64.toNat_inj.mp
  rw [r.place_toNat (by omega)]
  have hhi := r.hi.toNat_lt
  rw [Function.comp_apply, Nat.toUInt64_eq, UInt64.toNat_ofNat']
  omega

end DataRange

/-- The tables that a test of every aligned position of every range finds. -/
def allTables (mem : UserMemory) (ranges : List DataRange) (execLo execHi : UInt64) :
    List UInt64 :=
  ranges.flatMap (fun r => r.positions.filter (fun p => IsTable mem execLo execHi p))

/-! ### The loop over one range -/

section
variable {σ : Type} {mem : UserMemory} {execLo execHi : UInt64} (found : σ → UInt64 → σ)

theorem separate_of_null (hnull : ¬ (execLo ≤ 0 ∧ 0 < execHi)) (r : DataRange) :
    SkipScan.Separate (fun k => isTable mem execLo execHi (r.place k)) jniSchema.length := by
  intro k d hhit hpos hd
  rw [isTable_iff] at hhit
  by_contra hinside
  rw [Bool.not_eq_false, isTable_iff, r.place_add] at hinside
  exact hnull (hhit.not_overlapping hinside hpos hd)

theorem scanRange_eq_skipping (r : DataRange) (h : r.Regular) (fuel k : Nat) (s : σ)
    (hk : r.lo.toNat + 8 * k ≤ r.hi.toNat) :
    scanRange mem execLo execHi found r.hi fuel (r.place k) s =
      SkipScan.skipping (fun k => isTable mem execLo execHi (r.place k))
        (fun s k => found s (r.place k)) jniSchema.length r.places fuel k s := by
  induction fuel generalizing k s with
  | zero => rfl
  | succ fuel ih =>
      have hbelow := h.below
      have hlen := length_jniSchema
      have htable : (jniSchema.length.toUInt64 * 8 : UInt64).toNat = 8 * jniSchema.length := by
        rw [hlen]
        rfl
      have hcond : (r.place k + jniSchema.length.toUInt64 * 8 ≤ r.hi) ↔ k < r.places := by
        rw [UInt64.le_iff_toNat_le, UInt64.toNat_add, htable, r.place_toNat hk, DataRange.places]
        omega
      have hskip : r.place k + (jniSchema.length.toUInt64 * 8 - 8) + 8 =
          r.place (k + jniSchema.length) := by
        rw [r.place_add, UInt64.add_assoc, UInt64.sub_add_cancel]
      have hnext : r.place k + 8 = r.place (k + 1) := by
        rw [r.place_add]
        rfl
      simp only [scanRange, SkipScan.skipping, hcond]
      split
      next hroom =>
        rw [DataRange.places] at hroom
        rw [hskip, hnext]
        split
        · exact ih _ _ (by omega)
        · exact ih _ _ (by omega)
      · rfl

theorem scanRange_eq_of_places (r : DataRange) (h : r.Regular) (fuel : Nat) (s : σ) :
    scanRange mem execLo execHi found r.hi fuel r.lo s =
      SkipScan.skipping (fun k => isTable mem execLo execHi (r.place k))
        (fun s k => found s (r.place k)) jniSchema.length r.places fuel 0 s := by
  have hstart : r.place 0 = r.lo := by
    rw [DataRange.place]
    exact UInt64.add_zero r.lo
  have hscan : scanRange mem execLo execHi found r.hi fuel (r.place 0) s = _ :=
    scanRange_eq_skipping found r h fuel 0 s r.ordered_toNat
  rwa [hstart] at hscan

end

section
variable (mem : UserMemory) (execLo execHi : UInt64)

theorem foldl_snoc {α β : Type} (f : α → β) (before : List β) (ts : List α) :
    ts.foldl (fun ts p => ts ++ [f p]) before = before ++ ts.map f := by
  rw [List.foldl_append_eq_append, ← List.flatMap_def, ← List.map_eq_flatMap]

/-- The loop over one range ends, and finds a table if there is one. -/
theorem scanRange_finds (r : DataRange) (h : r.Regular) (fuel : Nat) (before : List UInt64)
    (hfuel : r.places < fuel) :
    ∃ ts, scanRange mem execLo execHi (fun ts p => ts ++ [p]) r.hi fuel r.lo before =
        some (before ++ ts) ∧
      (ts = [] ↔ r.positions.filter (fun p => IsTable mem execLo execHi p) = []) := by
  have hlen := length_jniSchema
  have hleft : r.places - 0 < fuel := by rwa [Nat.sub_zero]
  obtain ⟨ks, hrun, hvisited, hnone⟩ := SkipScan.skipping_visits
    (fun k => isTable mem execLo execHi (r.place k)) (fun ts k => ts ++ [r.place k])
    (show 0 < jniSchema.length by omega) fuel 0 before hleft
  rw [Nat.sub_zero] at hvisited hnone
  refine ⟨ks.map r.place, ?_, ?_⟩
  · rw [scanRange_eq_of_places _ r h, hrun, foldl_snoc]
  · rw [r.positions_eq h, List.map_eq_nil_iff, List.filter_eq_nil_iff, List.forall_mem_map]
    simp only [decide_eq_true_eq, ← isTable_iff, Bool.not_eq_true]
    constructor
    · intro hnil
      exact hnone hnil
    · intro hmiss
      apply List.eq_nil_iff_forall_not_mem.mpr
      intro j hj
      obtain ⟨hrange, hhit⟩ := hvisited j hj
      have hfalse := hmiss j hrange
      rw [hhit] at hfalse
      cases hfalse

/-- Where null is no code pointer, the loop finds every table. -/
theorem scanRange_finds_all (hnull : ¬ (execLo ≤ 0 ∧ 0 < execHi)) (r : DataRange) (h : r.Regular)
    (fuel : Nat) (before : List UInt64) (hfuel : r.places < fuel) :
    scanRange mem execLo execHi (fun ts p => ts ++ [p]) r.hi fuel r.lo before =
      some (before ++ r.positions.filter (fun p => IsTable mem execLo execHi p)) := by
  have hlen := length_jniSchema
  have hseparate : SkipScan.Separate (fun k => isTable mem execLo execHi (r.place k))
      jniSchema.length := separate_of_null hnull r
  have hleft : r.places - 0 < fuel := by rwa [Nat.sub_zero]
  rw [scanRange_eq_of_places _ r h,
    SkipScan.skipping_eq_exhaustive _ hseparate (by omega) fuel 0 before hleft, r.positions_eq h,
    List.filter_map, ← foldl_snoc, List.foldl_filter]
  simp only [SkipScan.exhaustive, Function.comp_apply, Nat.sub_zero, decide_eq_true_eq, isTable_iff]

/-- Enough fuel for every range of a list. -/
def scanFuel (ranges : List DataRange) : Nat := (ranges.map (fun r => r.places + 1)).sum

theorem scanFuel_cons (r : DataRange) (rest : List DataRange) :
    scanFuel (r :: rest) = r.places + 1 + scanFuel rest := by
  simp only [scanFuel, List.map_cons, List.sum_cons]

theorem allTables_cons (r : DataRange) (rest : List DataRange) :
    allTables mem (r :: rest) execLo execHi =
      r.positions.filter (fun p => IsTable mem execLo execHi p) ++
        allTables mem rest execLo execHi := by
  rw [allTables, List.flatMap_cons]
  rfl

theorem scanRanges_finds (ranges : List DataRange) (hregular : ∀ r ∈ ranges, r.Regular) (fuel : Nat)
    (hfuel : scanFuel ranges ≤ fuel) (before : List UInt64) :
    ∃ ts, scanRanges fuel mem ranges execLo execHi (fun ts p => ts ++ [p]) before =
        some (before ++ ts) ∧
      (ts = [] ↔ allTables mem ranges execLo execHi = []) ∧
      (¬ (execLo ≤ 0 ∧ 0 < execHi) → ts = allTables mem ranges execLo execHi) := by
  induction ranges generalizing before with
  | nil => exact ⟨[], by simp [scanRanges], by simp [allTables], by simp [allTables]⟩
  | cons r rest ih =>
      rw [scanFuel_cons] at hfuel
      have hr : r.Regular := hregular r List.mem_cons_self
      have hroom : r.places < fuel := by omega
      obtain ⟨first, hfirst, hempty⟩ := scanRange_finds mem execLo execHi r hr fuel before hroom
      obtain ⟨later, hlater, hempty', hall'⟩ :=
        ih (fun r' hr' => hregular r' (List.mem_cons_of_mem r hr')) (by omega) (before ++ first)
      refine ⟨first ++ later, ?_, ?_, ?_⟩
      · rw [scanRanges, List.foldlM_cons, hfirst, ← List.append_assoc]
        exact hlater
      · rw [allTables_cons, List.append_eq_nil_iff, List.append_eq_nil_iff, hempty, hempty']
      · intro hnull
        have hsame := scanRange_finds_all mem execLo execHi hnull r hr fuel before hroom
        rw [hfirst, Option.some.injEq, List.append_cancel_left_eq] at hsame
        rw [allTables_cons, hsame, hall' hnull]

end

theorem unionOf_error_iff (pid : Int) (mem : UserMemory) (base : UInt64) (ts : List UInt64) :
    (∃ message, unionOf pid mem base ts = .error message) ↔ ts = [] := by
  rw [unionOf]
  split
  next hnil => exact ⟨fun _ => hnil, fun _ => ⟨_, rfl⟩⟩
  next hsome =>
    constructor
    · rintro ⟨message, h⟩
      cases h
    · intro hnil
      exact absurd hnil hsome

/-- The skipping search ends, with an error exactly when no aligned position
holds a table. Unless null is a code pointer, it returns what a test of every
aligned position comes to. -/
theorem scan_eq_exhaustive (pid : Int) (mem : UserMemory) (ranges : List DataRange)
    (base execLo execHi : UInt64) (hregular : ∀ r ∈ ranges, r.Regular) :
    ∃ enough result,
      (∀ fuel, enough ≤ fuel →
        offsetsFromScan fuel pid mem ranges base execLo execHi = some result) ∧
      ((∃ message, result = .error message) ↔ allTables mem ranges execLo execHi = []) ∧
      (¬ (execLo ≤ 0 ∧ 0 < execHi) →
        result = unionOf pid mem base (allTables mem ranges execLo execHi)) := by
  obtain ⟨ts, hfound, hempty, hall⟩ :=
    scanRanges_finds mem execLo execHi ranges hregular
      (scanFuel ranges) (Nat.le_refl _) []
  refine ⟨scanFuel ranges, unionOf pid mem base ts, ?_, ?_, ?_⟩
  · intro fuel hfuel
    rw [offsetsFromScan_eq, tablesFound, scanRanges_mono _ _ _ _ hfuel _ _ _ hfound,
      List.nil_append, Option.map_some]
  · rw [unionOf_error_iff, hempty]
  · intro hnull
    rw [hall hnull]

namespace Scenario

/-- One data mapping with room for two overlapping tables: five zero words,
then words that are their own addresses. -/
def overlapRange : DataRange := ⟨0x1000, 0x1000 + 8 * 234, by decide⟩

def overlapMemory : UserMemory := UserMemory.ofWords (fun a => if a < 0x1000 + 40 then 0 else a)

end Scenario

open Scenario

theorem overlapRange_regular : ∀ r ∈ [overlapRange], r.Regular := by
  intro r hr
  obtain rfl := List.mem_singleton.mp hr
  constructor
  · decide
  · decide
  · rw [length_jniSchema]
    decide

theorem scan_eq_exhaustive_overlap :
    ∃ enough result,
      (∀ fuel, enough ≤ fuel →
        offsetsFromScan fuel 1 overlapMemory [overlapRange] 0x1000 0x1000 0x2000 = some result) ∧
      ((∃ message, result = .error message) ↔
        allTables overlapMemory [overlapRange] 0x1000 0x2000 = []) ∧
      (¬ ((0x1000 : UInt64) ≤ 0 ∧ (0 : UInt64) < 0x2000) →
        result = unionOf 1 overlapMemory 0x1000
          (allTables overlapMemory [overlapRange] 0x1000 0x2000)) :=
  scan_eq_exhaustive 1 overlapMemory [overlapRange] 0x1000 0x1000 0x2000 overlapRange_regular

/-- Where the executable range begins at null, a zero word is a code pointer:
the table at `0x1008` begins inside the one at `0x1000`, and the search skips it. -/
theorem null_code_pointer_overlap :
    ¬ ∀ (pid : Int) (mem : UserMemory) (ranges : List DataRange) (base execLo execHi : UInt64),
      (∀ r ∈ ranges, r.Regular) →
      ∃ enough, ∀ fuel, enough ≤ fuel →
        offsetsFromScan fuel pid mem ranges base execLo execHi =
          some (unionOf pid mem base (allTables mem ranges execLo execHi)) := by
  intro hclaim
  obtain ⟨enough, hscan⟩ := hclaim 1 overlapMemory [overlapRange] 0 0 0x2000 overlapRange_regular
  have hall : allTables overlapMemory [overlapRange] 0 0x2000 = [0x1000, 0x1008] := by
    decide +kernel
  have hfirst : isTable overlapMemory 0 0x2000 0x1000 = true := by decide +kernel
  have hfound : tablesFound (enough + 2) overlapMemory [overlapRange] 0 0x2000 = some [0x1000] := by
    rw [tablesFound, scanRanges, List.foldlM_cons]
    have hroom : (0x1000 + (233 : Nat).toUInt64 * 8 : UInt64) ≤ 0x1000 + 8 * 234 := by decide
    have hend :
        ¬ (0x1000 + ((233 : Nat).toUInt64 * 8 - 8) + 8 + (233 : Nat).toUInt64 * 8 : UInt64) ≤
          0x1000 + 8 * 234 := by decide
    simp only [overlapRange, scanRange, length_jniSchema, hfirst, if_true, if_pos hroom,
      if_neg hend]
    rfl
  have hresult := hscan (enough + 2) (by omega)
  rw [offsetsFromScan_eq, hfound, hall, Option.map_some, Option.some.injEq, unionOf, unionOf,
    if_neg (List.cons_ne_nil _ _), if_neg (List.cons_ne_nil _ _), Except.ok.injEq] at hresult
  have hskipped : (GoMap.ofWrites ([0x1000].flatMap (tableWrites overlapMemory 0))).lookup 0x1028 =
      some 5 := by
    rw [List.flatMap_singleton]
    apply GoMap.lookup_assign_of_unique
    · decide +kernel
    · decide +kernel
  have htested : (GoMap.ofWrites ([0x1000, 0x1008].flatMap (tableWrites overlapMemory 0))).lookup
      0x1028 = some 4 := by
    rw [List.flatMap_cons, List.flatMap_singleton, GoMap.ofWrites, GoMap.assign_append]
    apply GoMap.lookup_assign_of_unique
    · decide +kernel
    · decide +kernel
  rw [hresult, htested] at hskipped
  cases hskipped

end JniProbe
