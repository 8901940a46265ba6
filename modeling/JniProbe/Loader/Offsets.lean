import JniProbe.Lib.GoJson
import JniProbe.Lib.GoMap
import JniProbe.Lib.GoNumber
import JniProbe.Lib.GoSplit
import JniProbe.Lib.SkipScan
import JniProbe.Loader.Target

/-!
Where the functions of `JNINativeInterface` lie in libart: read from a file of
slots and offsets, or found by a search of its data mappings for tables of code
pointers. Each entry of the file, and each function slot of a table, contributes
one assignment to the result.
-/

namespace JniProbe

open GoText GoFormat

/-- `map[uint64]int`: file offset to slot. -/
abbrev Offsets := GoMap UInt64 Nat

/-- What one entry of the file assigns, if it is not skipped. -/
def fileWrite (entry : Bytes × Bytes) : Option (UInt64 × Nat) :=
  match GoNumber.atoi entry.1 with
  | none => none
  | some slot =>
    if slot < 0 ∨ (jniSchema.length : Int) ≤ slot then none
    else
      match GoNumber.parseUint (trimSpace entry.2) 0 with
      | .error _ => none
      | .ok off => some (off, slot.toNat)

/-- `offsetsFromFile`, given what reading the file returned and the order in
which Go happens to visit a map. -/
def offsetsFromFile (raw : Option Bytes)
    (visit : GoMap Bytes Bytes → List (Bytes × Bytes)) : Option Offsets :=
  (raw.bind GoJson.unmarshal).map (fun members =>
    GoMap.ofWrites ((visit (GoMap.ofWrites members)).filterMap fileWrite))

/-- The slots that hold functions, behind the four reserved ones. -/
def functionSlots : List Nat := List.range' 4 (jniSchema.length - 4)

def tableWord (mem : UserMemory) (p : UInt64) (i : Nat) : Option UInt64 :=
  u64 mem (p + i.toUInt64 * 8)

/-- The two loops that check a position: the reserved words are zero and all
others point into the executable mapping. -/
def isTable (mem : UserMemory) (execLo execHi p : UInt64) : Bool :=
  (List.range 4).all (fun i =>
    match tableWord mem p i with
    | none => false
    | some v => v == 0) &&
  functionSlots.all (fun i =>
    match tableWord mem p i with
    | none => false
    | some v => !(v < execLo || execHi ≤ v))

/-- The assignments `out[v-base] = i` of one table. -/
def tableWrites (mem : UserMemory) (base p : UInt64) : List (UInt64 × Nat) :=
  functionSlots.map (fun i => ((tableWord mem p i).getD 0 - base, i))

/-- `for p := r[0]; p+uint64(n)*8 <= r[1]; p += 8`, with `found` as the part of
the body that a table reaches. -/
def scanRange {σ : Type} (mem : UserMemory) (execLo execHi : UInt64) (found : σ → UInt64 → σ)
    (hi : UInt64) : Nat → UInt64 → σ → Option σ
  | 0, _, _ => none
  | fuel + 1, p, s =>
      if p + jniSchema.length.toUInt64 * 8 ≤ hi then
        if isTable mem execLo execHi p then
          scanRange mem execLo execHi found hi fuel
            (p + (jniSchema.length.toUInt64 * 8 - 8) + 8) (found s p)
        else scanRange mem execLo execHi found hi fuel (p + 8) s
      else some s

/-- The mappings in turn. -/
def scanRanges {σ : Type} (fuel : Nat) (mem : UserMemory) (ranges : List DataRange)
    (execLo execHi : UInt64) (found : σ → UInt64 → σ) (s : σ) : Option σ :=
  ranges.foldlM (fun s r => scanRange mem execLo execHi found r.hi fuel r.lo s) s

structure TableUnion where
  tables : Nat
  out : Offsets

def TableUnion.add (mem : UserMemory) (base : UInt64) (f : TableUnion) (p : UInt64) : TableUnion :=
  { tables := f.tables + 1, out := f.out.assign (tableWrites mem base p) }

theorem TableUnion.add_out (mem : UserMemory) (base : UInt64) (f : TableUnion) (p : UInt64) :
    (f.add mem base p).out = f.out.assign (tableWrites mem base p) := by
  rw [TableUnion.add]

/-- `offsetsFromScan` behind the reads of the maps: no result stands for a
search that has not ended, `error` for the error it returns. -/
def offsetsFromScan (fuel : Nat) (pid : Int) (mem : UserMemory) (ranges : List DataRange)
    (base execLo execHi : UInt64) : Option (Except Bytes Offsets) :=
  (scanRanges fuel mem ranges execLo execHi (TableUnion.add mem base) ⟨0, ∅⟩).map (fun f =>
    if f.out.len = 0 then
      .error (str "JNINativeInterface table not found in pid " ++ formatInt pid)
    else .ok f.out)

/-! ### What a position must hold -/

/-- A table begins at `p`: four zero words, then pointers into the executable
mapping for all other slots. -/
structure IsTable (mem : UserMemory) (execLo execHi p : UInt64) : Prop where
  reserved : ∀ i < 4, tableWord mem p i = some 0
  functions : ∀ i, 4 ≤ i → i < jniSchema.length →
    ∃ v, tableWord mem p i = some v ∧ execLo ≤ v ∧ v < execHi

theorem length_jniSchema : jniSchema.length = 233 := by decide +kernel

theorem mem_functionSlots {i : Nat} : i ∈ functionSlots ↔ 4 ≤ i ∧ i < jniSchema.length := by
  have hlen := length_jniSchema
  rw [functionSlots, List.mem_range'_1]
  omega

theorem isTable_iff (mem : UserMemory) (execLo execHi p : UInt64) :
    isTable mem execLo execHi p = true ↔ IsTable mem execLo execHi p := by
  simp only [isTable, Bool.and_eq_true, List.all_eq_true, List.mem_range, mem_functionSlots]
  constructor
  · rintro ⟨hreserved, hfunctions⟩
    constructor
    · intro i hi
      have h := hreserved i hi
      cases hword : tableWord mem p i with
      | none => simp [hword] at h
      | some v =>
          simp only [hword, beq_iff_eq] at h
          rw [h]
    · intro i hlow hhigh
      have h := hfunctions i ⟨hlow, hhigh⟩
      cases hword : tableWord mem p i with
      | none => simp [hword] at h
      | some v =>
          simp only [hword, Bool.not_eq_true', Bool.or_eq_false_iff, decide_eq_false_iff_not,
            UInt64.not_lt, UInt64.not_le] at h
          exact ⟨v, rfl, h⟩
  · intro h
    constructor
    · intro i hi
      simp [h.reserved i hi]
    · rintro i ⟨hlow, hhigh⟩
      obtain ⟨v, hword, hfrom, hto⟩ := h.functions i hlow hhigh
      simp only [hword, Bool.not_eq_true', Bool.or_eq_false_iff, decide_eq_false_iff_not,
        UInt64.not_lt, UInt64.not_le]
      exact ⟨hfrom, hto⟩

instance (mem : UserMemory) (execLo execHi p : UInt64) : Decidable (IsTable mem execLo execHi p) :=
  decidable_of_iff _ (isTable_iff mem execLo execHi p)

theorem tableWord_shift (mem : UserMemory) (p : UInt64) (d i : Nat) :
    tableWord mem (p + d.toUInt64 * 8) i = tableWord mem p (d + i) := by
  have haddr : p + d.toUInt64 * 8 + i.toUInt64 * 8 = p + (d + i).toUInt64 * 8 := by
    have hsum : (d + i).toUInt64 = d.toUInt64 + i.toUInt64 := UInt64.ofNat_add d i
    rw [hsum, UInt64.add_mul, UInt64.add_assoc]
  rw [tableWord, tableWord, haddr]

/-- A table inside another one would need a reserved word, which is zero, to
be a code pointer. -/
theorem IsTable.not_overlapping {mem : UserMemory} {execLo execHi p : UInt64} {d : Nat}
    (h : IsTable mem execLo execHi p) (h' : IsTable mem execLo execHi (p + d.toUInt64 * 8))
    (hpos : 0 < d) (hd : d < jniSchema.length) : execLo ≤ 0 ∧ 0 < execHi := by
  have hlen := length_jniSchema
  obtain ⟨i, hi, hlow, hhigh⟩ : ∃ i < 4, 4 ≤ d + i ∧ d + i < jniSchema.length :=
    ⟨4 - d, by omega, by omega, by omega⟩
  have hzero : tableWord mem p (d + i) = some 0 := by
    rw [← tableWord_shift]
    exact h'.reserved i hi
  obtain ⟨v, hword, hfrom, hto⟩ := h.functions (d + i) hlow hhigh
  obtain rfl : 0 = v := Option.some.inj (hzero.symm.trans hword)
  exact ⟨hfrom, hto⟩

/-! ### The tables that a search finds -/

section
variable {σ : Type} (mem : UserMemory) (execLo execHi : UInt64) (found : σ → UInt64 → σ)

theorem scanRange_append (hi : UInt64) (fuel : Nat) (p : UInt64) (before : List UInt64) (s : σ) :
    scanRange mem execLo execHi found hi fuel p (before.foldl found s) =
      (scanRange mem execLo execHi (fun ts p => ts ++ [p]) hi fuel p before).map
        (fun ts => ts.foldl found s) := by
  induction fuel generalizing p before with
  | zero => rfl
  | succ fuel ih =>
      simp only [scanRange]
      split
      · split
        · have hvisit : found (before.foldl found s) p = (before ++ [p]).foldl found s := by
            rw [List.foldl_append, List.foldl_cons, List.foldl_nil]
          rw [hvisit, ih]
        · exact ih _ _
      · rfl

/-- More fuel does not change the result. -/
theorem scanRange_mono (hi : UInt64) {fuel fuel' : Nat} (hle : fuel ≤ fuel') (p : UInt64) (s s' : σ)
    (h : scanRange mem execLo execHi found hi fuel p s = some s') :
    scanRange mem execLo execHi found hi fuel' p s = some s' := by
  induction fuel generalizing fuel' p s with
  | zero => cases h
  | succ fuel ih =>
      obtain ⟨fuel', rfl⟩ : ∃ n, fuel' = n + 1 := ⟨fuel' - 1, by omega⟩
      simp only [scanRange] at h ⊢
      split at h
      next hroom =>
        rw [if_pos hroom]
        split at h
        next htable =>
          rw [if_pos htable]
          exact ih (by omega) _ _ h
        next htable =>
          rw [if_neg htable]
          exact ih (by omega) _ _ h
      next hroom =>
        rw [if_neg hroom]
        exact h

theorem scanRanges_mono {fuel fuel' : Nat} (hle : fuel ≤ fuel') (ranges : List DataRange) (s s' : σ)
    (h : scanRanges fuel mem ranges execLo execHi found s = some s') :
    scanRanges fuel' mem ranges execLo execHi found s = some s' := by
  induction ranges generalizing s with
  | nil => exact h
  | cons r rest ih =>
      rw [scanRanges, List.foldlM_cons, Option.bind_eq_bind, Option.bind_eq_some_iff] at h ⊢
      obtain ⟨next, hfirst, hrest⟩ := h
      exact ⟨next, scanRange_mono mem execLo execHi found r.hi hle _ _ _ hfirst, ih next hrest⟩

def tablesFound (fuel : Nat) (mem : UserMemory) (ranges : List DataRange)
    (execLo execHi : UInt64) : Option (List UInt64) :=
  scanRanges fuel mem ranges execLo execHi (fun ts p => ts ++ [p]) []

/-- A search does with the tables it finds, in order, what its body says. -/
theorem scanRanges_eq_foldl (fuel : Nat) (ranges : List DataRange) (s : σ) :
    scanRanges fuel mem ranges execLo execHi found s =
      (tablesFound fuel mem ranges execLo execHi).map (fun ts => ts.foldl found s) := by
  suffices h : ∀ before : List UInt64,
      scanRanges fuel mem ranges execLo execHi found (before.foldl found s) =
        (scanRanges fuel mem ranges execLo execHi (fun ts p => ts ++ [p]) before).map
          (fun ts => ts.foldl found s) from h []
  induction ranges with
  | nil => exact fun _ => rfl
  | cons r rest ih =>
      intro before
      simp only [scanRanges, List.foldlM_cons, scanRange_append]
      cases scanRange mem execLo execHi (fun ts p => ts ++ [p]) r.hi fuel r.lo before with
      | none => rfl
      | some ts => exact ih ts

end

theorem foldl_add_out (mem : UserMemory) (base : UInt64) (ts : List UInt64) (f : TableUnion) :
    (ts.foldl (TableUnion.add mem base) f).out =
      f.out.assign (ts.flatMap (tableWrites mem base)) := by
  induction ts generalizing f with
  | nil => rfl
  | cons p rest ih => rw [List.foldl_cons, ih, List.flatMap_cons, GoMap.assign_append, f.add_out]

theorem tableWrites_ne_nil (mem : UserMemory) (base p : UInt64) : tableWrites mem base p ≠ [] := by
  intro h
  have hlen := length_jniSchema
  have hslot : 4 ∈ functionSlots := mem_functionSlots.mpr ⟨Nat.le_refl 4, by omega⟩
  rw [tableWrites, List.map_eq_nil_iff] at h
  rw [h] at hslot
  exact List.not_mem_nil hslot

/-- What the tables of a search come to. -/
def unionOf (pid : Int) (mem : UserMemory) (base : UInt64) (ts : List UInt64) :
    Except Bytes Offsets :=
  if ts = [] then .error (str "JNINativeInterface table not found in pid " ++ formatInt pid)
  else .ok (GoMap.ofWrites (ts.flatMap (tableWrites mem base)))

/-- The map is empty exactly when there was no table. -/
theorem offsetsFromScan_eq (fuel : Nat) (pid : Int) (mem : UserMemory) (ranges : List DataRange)
    (base execLo execHi : UInt64) :
    offsetsFromScan fuel pid mem ranges base execLo execHi =
      (tablesFound fuel mem ranges execLo execHi).map (unionOf pid mem base) := by
  rw [offsetsFromScan, scanRanges_eq_foldl, Option.map_map]
  congr 1
  funext ts
  have hout : (ts.foldl (TableUnion.add mem base) ⟨0, ∅⟩).out =
      GoMap.ofWrites (ts.flatMap (tableWrites mem base)) := foldl_add_out mem base ts ⟨0, ∅⟩
  have hempty : ts.flatMap (tableWrites mem base) = [] ↔ ts = [] := by
    rw [List.flatMap_eq_nil_iff]
    constructor
    · intro h
      apply List.eq_nil_iff_forall_not_mem.mpr
      intro p hp
      exact tableWrites_ne_nil mem base p (h p hp)
    · rintro rfl p hp
      cases hp
  simp only [Function.comp_apply, hout, GoMap.len_eq_zero_iff, GoMap.ofWrites_eq_empty_iff, hempty,
    unionOf]

end JniProbe
