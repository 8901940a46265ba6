import JniProbe.System.Machine

/-!
Sessions and probe hits for concrete runs: the default configuration, an
offset table given by a list, and hits that differ in their registers and in
the memory the loader reads.
-/

namespace JniProbe.Scenario

open GoText

def filters : Filters where
  modes := [str "all"]
  only := []
  exclude := []
  grep := []
  classRe := none
  methodRe := none
  fromList := []

def config : Config where
  noReturns := false
  maxDepth := 0
  tid := 0
  verbose := false
  count := false
  jsonOut := false
  stack := false

/-- The functions of these slots at the offsets `0, 1, …`. -/
def table (slots : List Nat) : OffsetTable :=
  (slots.mapIdx (fun i slot => (⟨UInt64.ofNat i, slot⟩ : (_ : UInt64) × Nat))).toAList

def session (offsets : OffsetTable) : Session := ⟨config, filters, offsets, 0⟩

/-- The offsets `0 … n - 1` with the functions that `slotOf` gives them. -/
def offsetsOf (slotOf : Nat → Nat) (n : Nat) (h : n ≤ 2 ^ 64) : OffsetTable where
  entries := (List.range n).map (fun i => ⟨UInt64.ofNat i, slotOf i⟩)
  nodupKeys := by
    have hkeys : ((List.range n).map
        (fun i => (⟨UInt64.ofNat i, slotOf i⟩ : (_ : UInt64) × Nat))).keys =
        (List.range n).map UInt64.ofNat := by
      simp [List.keys, Function.comp_def]
    rw [List.NodupKeys, hkeys]
    apply List.nodup_range.map_on
    intro i hi j hj heq
    have hi := List.mem_range.mp hi
    have hj := List.mem_range.mp hj
    have hnat := congrArg UInt64.toNat heq
    rw [UInt64.toNat_ofNat', UInt64.toNat_ofNat', Nat.mod_eq_of_lt (by omega),
      Nat.mod_eq_of_lt (by omega)] at hnat
    exact hnat

theorem slotAt_offsetsOf (slotOf : Nat → Nat) (n : Nat) (h : n ≤ 2 ^ 64) {i : Nat} (hi : i < n) :
    (session (offsetsOf slotOf n h)).slotAt (UInt64.ofNat i) = some (slotOf i) := by
  apply AList.mem_lookup_iff.mpr
  exact List.mem_map.mpr ⟨i, List.mem_range.mpr hi, rfl⟩

theorem retOffsets_of (S : Session) (slotOf : Nat → Nat) (n : Nat) (h : n ≤ 2 ^ 64)
    (hoffsets : S.offsets = offsetsOf slotOf n h) : S.retOffsets =
      ((List.range n).filter (fun i => S.retSet (slotOf i))).map UInt64.ofNat := by
  have hentries : S.offsets.entries =
      (List.range n).map (fun i => ⟨UInt64.ofNat i, slotOf i⟩) := by rw [hoffsets]; rfl
  unfold Session.retOffsets
  rw [hentries, List.filterMap_map, ← List.filterMap_eq_filter, List.map_filterMap]
  apply List.filterMap_congr
  intro i _
  simp [Option.guard]

theorem retOffsets_offsetsOf (slotOf : Nat → Nat) (n : Nat) (h : n ≤ 2 ^ 64) :
    (session (offsetsOf slotOf n h)).retOffsets =
      ((List.range n).filter (fun i => (session (offsetsOf slotOf n h)).retSet (slotOf i))).map
        UInt64.ofNat :=
  retOffsets_of _ slotOf n h rfl

theorem retSet_of_alwaysWatch (S : Session) {slot : Nat} (h : alwaysWatch (slotName slot) = true) :
    S.retSet slot = true := by
  simp [Session.retSet, h]

/-- The offsets `0 … n - 1`, all of them `FindClass`. -/
def manyOffsets (n : Nat) (h : n ≤ 2 ^ 64) : OffsetTable := offsetsOf (fun _ => 6) n h

theorem retOffsets_manyOffsets (n : Nat) (h : n ≤ 2 ^ 64) :
    (session (manyOffsets n h)).retOffsets = (List.range n).map UInt64.ofNat := by
  have hall := retOffsets_offsetsOf (fun _ => 6) n h
  rwa [List.filter_eq_self.mpr (fun _ _ => retSet_of_alwaysWatch _ (by decide))] at hall

def blank : Evt where
  pid := 0
  tid := 0
  kind := 0
  pad := 0
  ip := 0
  rc := 0
  ts := 0
  depth := 0
  pad2 := 0
  caller := 0
  a := Vector.replicate nargs 0
  ncap := 0
  argkind := 0
  res1 := 0
  res2 := 0
  cap := Vector.replicate ncapWords 0
  cap2 := Vector.replicate ncapWords 0
  vgr := 0
  vgoff := 0
  vstk := 0
  stackid := 0
  pad3 := 0

def registers (parm : Vector UInt64 nargs) : ProbeCtx where
  pid := 1
  tid := 1
  ip := 0
  ret := 0
  parm := parm
  ts := 0
  mem := fun _ => none
  stackid := -1

def env (mr : Option UserMemory) : Env := ⟨mr, fun _ => [], filters⟩

/-- A hit whose reservation succeeds. -/
def hit (parm : Vector UInt64 nargs) (mr : Option UserMemory) : Hit :=
  ⟨registers parm, some blank, env mr⟩

/-- A memory that holds these zero-terminated texts and nothing else. -/
def textMemory (texts : List (UInt64 × Bytes)) : UserMemory := fun a =>
  (texts.find? (fun t => t.1 ≤ a && a ≤ t.1 + t.2.length.toUInt64)).map
    (fun t => t.2.getD (a - t.1).toNat 0)

/-- A hit that finds the ring full. -/
def lostHit (parm : Vector UInt64 nargs) (mr : Option UserMemory) : Hit :=
  ⟨registers parm, none, env mr⟩

end JniProbe.Scenario
