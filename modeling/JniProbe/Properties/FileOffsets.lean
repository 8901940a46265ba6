import JniProbe.Loader.Target

/-!
An address minus the base of libart is meant to be the file offset of the
address. The base comes from one line of the maps, the executable range from
another, so this is true of a mapping only if the lines are related as the
parser assumes but does not check.
-/

namespace JniProbe

open GoText GoFormat

def mapLines (text : Bytes) : List MapLine := (split 10 text).filterMap libartLine

/-- The line the base is taken from: the first that yields one. -/
def baseLine (lines : List MapLine) : Option MapLine := lines.find? (fun m => m.lo ≠ m.fo)

/-- The line the executable range is taken from. -/
def execLine (lines : List MapLine) : Option MapLine := (lines.filter MapLine.isExec).getLast?

/-- The executable mappings of the file that the base is taken from. -/
def imageExecLines (lines : List MapLine) : List MapLine :=
  match baseLine lines with
  | none => []
  | some b => lines.filter (fun m => m.isExec && m.path == b.path)

/-! ### What the loop over the lines leaves -/

/-- The body of the loop at a line of libart. -/
def LibartBase.take (b : LibartBase) (m : MapLine) : LibartBase :=
  let b := if b.base = 0 then { b with base := m.lo - m.fo } else b
  if m.isExec then { b with execLo := m.lo, execHi := m.hi } else b

theorem foldl_step_eq_take (lns : List Bytes) (b : LibartBase) :
    lns.foldl LibartBase.step b = (lns.filterMap libartLine).foldl LibartBase.take b := by
  induction lns generalizing b with
  | nil => rfl
  | cons ln rest ih =>
      rw [List.foldl_cons, ih, List.filterMap_cons, LibartBase.step]
      cases libartLine ln with
      | none => rfl
      | some m => rfl

theorem take_base (b : LibartBase) (m : MapLine) :
    (b.take m).base = if b.base = 0 then m.lo - m.fo else b.base := by
  rw [LibartBase.take]
  split <;> split <;> simp_all

theorem take_exec (b : LibartBase) (m : MapLine) :
    ((b.take m).execLo, (b.take m).execHi) =
      if m.isExec then (m.lo, m.hi) else (b.execLo, b.execHi) := by
  rw [LibartBase.take]
  split <;> split <;> rfl

theorem sub_eq_zero_iff (a c : UInt64) : a - c = 0 ↔ a = c := by
  constructor
  · intro h
    have hadd : a - c + c = a := UInt64.sub_add_cancel a c
    rw [h, UInt64.zero_add] at hadd
    exact hadd.symm
  · rintro rfl
    exact UInt64.sub_self a

theorem foldl_take_base (lines : List MapLine) (b : LibartBase) :
    (lines.foldl LibartBase.take b).base =
      if b.base = 0 then
        match baseLine lines with
        | none => 0
        | some m => m.lo - m.fo
      else b.base := by
  induction lines generalizing b with
  | nil =>
      rw [List.foldl_nil]
      split
      next hzero => exact hzero
      · rfl
  | cons m rest ih =>
      have hcons : baseLine (m :: rest) =
          if decide (m.lo ≠ m.fo) then some m else baseLine rest := by
        rw [baseLine, List.find?_cons]
        split
        next hfound => rw [if_pos hfound]
        next hfound =>
          rw [hfound]
          rfl
      rw [List.foldl_cons, ih, take_base, hcons]
      cases hfound : decide (m.lo ≠ m.fo) with
      | true =>
          have hne : ¬ m.lo - m.fo = 0 := by
            rw [sub_eq_zero_iff]
            simpa using hfound
          by_cases hzero : b.base = 0
          · simp only [if_pos hzero, if_neg hne, if_true]
          · simp only [if_neg hzero]
      | false =>
          have heq : m.lo - m.fo = 0 := by
            rw [sub_eq_zero_iff]
            simpa using hfound
          by_cases hzero : b.base = 0
          · simp only [if_pos hzero, if_pos heq, Bool.false_eq_true, if_false]
          · simp only [if_neg hzero]

theorem foldl_take_exec (lines : List MapLine) (b : LibartBase) :
    ((lines.foldl LibartBase.take b).execLo, (lines.foldl LibartBase.take b).execHi) =
      match execLine lines with
      | none => (b.execLo, b.execHi)
      | some m => (m.lo, m.hi) := by
  induction lines using List.reverseRecOn with
  | nil => rfl
  | append_singleton lines m ih =>
      rw [List.foldl_append, List.foldl_cons, List.foldl_nil, take_exec, ih, execLine, execLine,
        List.filter_append]
      cases hexec : m.isExec with
      | true => simp [hexec]
      | false => simp [hexec]

/-- The result of `libartBase` in terms of the two lines it is taken from. -/
theorem libartBase_ok {pid : Int} {text : Bytes} {b : LibartBase}
    (h : libartBase pid (.ok text) = .ok b) :
    ∃ m, baseLine (mapLines text) = some m ∧ b.base = m.lo - m.fo ∧
      (b.execLo, b.execHi) =
        match execLine (mapLines text) with
        | none => (0, 0)
        | some m => (m.lo, m.hi) := by
  have hbase := foldl_take_base (mapLines text) ⟨0, 0, 0⟩
  have hexec := foldl_take_exec (mapLines text) ⟨0, 0, 0⟩
  rw [mapLines] at hbase hexec ⊢
  simp only [libartBase, foldl_step_eq_take] at h
  split at h
  · cases h
  next hsome =>
    cases h
    rw [if_pos rfl] at hbase
    cases hline : baseLine ((split 10 text).filterMap libartLine) with
    | none =>
        rw [hline] at hbase
        exact absurd hbase hsome
    | some m =>
        rw [hline] at hbase
        exact ⟨m, rfl, hbase, hexec⟩

/-! ### When the offsets are file offsets -/

/-- Every executable mapping of the file lies as far from its file offset as
the line of the base, and inside the last executable mapping of any libart. -/
def OneBias (lines : List MapLine) : Prop :=
  ∀ b, baseLine lines = some b → ∀ m ∈ imageExecLines lines, m.lo < m.hi →
    m.lo - m.fo = b.lo - b.fo ∧ ∃ l, execLine lines = some l ∧ l.lo ≤ m.lo ∧ m.hi ≤ l.hi

theorem mem_imageExecLines {lines : List MapLine} {m : MapLine} (h : m ∈ imageExecLines lines) :
    m ∈ lines ∧ m.isExec = true := by
  rw [imageExecLines] at h
  split at h
  · cases h
  · rw [List.mem_filter, Bool.and_eq_true] at h
    exact ⟨h.1, h.2.1⟩

theorem exists_execLine {lines : List MapLine} {m : MapLine} (hm : m ∈ lines)
    (hexec : m.isExec = true) : ∃ l, execLine lines = some l := by
  have hmem : m ∈ lines.filter MapLine.isExec := List.mem_filter.mpr ⟨hm, hexec⟩
  cases hlast : execLine lines with
  | none =>
      rw [execLine, List.getLast?_eq_none_iff] at hlast
      rw [hlast] at hmem
      cases hmem
  | some l => exact ⟨l, rfl⟩

theorem offset_eq_iff (v lo fo base : UInt64) : v - base = v - lo + fo ↔ lo - fo = base := by
  constructor
  · intro h
    grind
  · rintro rfl
    grind

theorem range_within_iff {lo hi lo' hi' : UInt64} (h : lo < hi) :
    (∀ v, lo ≤ v → v < hi → lo' ≤ v ∧ v < hi') ↔ lo' ≤ lo ∧ hi ≤ hi' := by
  constructor
  · intro hall
    have hpos : 0 < hi.toNat := Nat.lt_of_le_of_lt (Nat.zero_le _) (UInt64.lt_iff_toNat_lt.mp h)
    have hlt := UInt64.lt_iff_toNat_lt.mp h
    have hlast : (hi - 1).toNat = hi.toNat - 1 := by
      rw [UInt64.toNat_sub_of_le hi 1 (UInt64.le_iff_toNat_le.mpr hpos)]
      rfl
    obtain ⟨-, hend⟩ := hall (hi - 1) (UInt64.le_iff_toNat_le.mpr (by omega))
      (UInt64.lt_iff_toNat_lt.mpr (by omega))
    refine ⟨(hall lo (UInt64.le_refl lo) h).1, ?_⟩
    rw [UInt64.le_iff_toNat_le]
    rw [UInt64.lt_iff_toNat_lt] at hend
    omega
  · rintro ⟨hlo, hhi⟩ v hfrom hto
    exact ⟨UInt64.le_trans hlo hfrom, UInt64.lt_of_lt_of_le hto hhi⟩

/-- Wherever `libartBase` succeeds, its range and base serve the executable
mappings of the file exactly when all of them have the bias of the first line
and lie in the last executable one. -/
theorem offsets_are_file_offsets_iff (pid : Int) (text : Bytes) (b : LibartBase)
    (hok : libartBase pid (.ok text) = .ok b) :
    (∀ m ∈ imageExecLines (mapLines text), ∀ v, m.lo ≤ v → v < m.hi →
        (b.execLo ≤ v ∧ v < b.execHi) ∧ v - b.base = v - m.lo + m.fo) ↔
      OneBias (mapLines text) := by
  obtain ⟨first, hfirst, hbase, hexec⟩ := libartBase_ok hok
  have hrange {m l : MapLine} (hl : execLine (mapLines text) = some l) (hlt : m.lo < m.hi) :
      (∀ v, m.lo ≤ v → v < m.hi → b.execLo ≤ v ∧ v < b.execHi) ↔ l.lo ≤ m.lo ∧ m.hi ≤ l.hi := by
    rw [hl] at hexec
    obtain ⟨hlo, hhi⟩ := Prod.mk.inj hexec
    rw [hlo, hhi, range_within_iff hlt]
  constructor
  · intro hall first' hfirst' m hm hlt
    obtain rfl : first = first' := Option.some.inj (hfirst.symm.trans hfirst')
    obtain ⟨hmem, hx⟩ := mem_imageExecLines hm
    obtain ⟨l, hl⟩ := exists_execLine hmem hx
    constructor
    · have hoff := (hall m hm m.lo (UInt64.le_refl _) hlt).2
      rwa [offset_eq_iff, hbase] at hoff
    · exact ⟨l, hl, (hrange hl hlt).mp (fun v hfrom hto => (hall m hm v hfrom hto).1)⟩
  · intro hone m hm v hfrom hto
    have hlt : m.lo < m.hi := UInt64.lt_of_le_of_lt hfrom hto
    obtain ⟨hbias, l, hl, hwithin⟩ := hone first hfirst m hm hlt
    refine ⟨(hrange hl hlt).mpr hwithin v hfrom hto, ?_⟩
    rw [offset_eq_iff, hbase, hbias]

namespace Scenario

/-- Two segments of libart with one distance between addresses and offsets. -/
def plainMaps : Bytes :=
  str "7000000000-7000100000 r--p 00000000 fe:00 10 /apex/lib64/libart.so\n" ++
    str "7000100000-7000600000 r-xp 00100000 fe:00 10 /apex/lib64/libart.so\n"

/-- Between the segments, the addresses skip a megabyte that the file does not. -/
def gapMaps : Bytes :=
  str "7000000000-7000100000 r--p 00000000 fe:00 10 /apex/lib64/libart.so\n" ++
    str "7000200000-7000600000 r-xp 00100000 fe:00 10 /apex/lib64/libart.so\n"

end Scenario

open Scenario in
theorem offsets_are_file_offsets_iff_plain :
    (∀ m ∈ imageExecLines (mapLines plainMaps), ∀ v, m.lo ≤ v → v < m.hi →
        ((0x7000100000 : UInt64) ≤ v ∧ v < 0x7000600000) ∧
          v - 0x7000000000 = v - m.lo + m.fo) ↔
      OneBias (mapLines plainMaps) :=
  offsets_are_file_offsets_iff 1 plainMaps ⟨0x7000000000, 0x7000100000, 0x7000600000⟩
    (by decide +kernel)

open Scenario in
/-- Behind a gap the offset handed to the probe is `0x200000`; the address is at
`0x100000` in the file. -/
theorem segment_gap_shifts_offsets :
    ¬ ∀ (pid : Int) (text : Bytes) (b : LibartBase), libartBase pid (.ok text) = .ok b →
      ∀ m ∈ imageExecLines (mapLines text), ∀ v, m.lo ≤ v → v < m.hi →
        (b.execLo ≤ v ∧ v < b.execHi) ∧ v - b.base = v - m.lo + m.fo := by
  intro hclaim
  have hok : libartBase 1 (.ok gapMaps) =
      .ok ⟨0x7000000000, 0x7000200000, 0x7000600000⟩ := by decide +kernel
  have hlines : (imageExecLines (mapLines gapMaps)).map (fun m => (m.lo, m.hi, m.fo)) =
      [(0x7000200000, 0x7000600000, 0x100000)] := by decide +kernel
  obtain ⟨m, hm, hvalues⟩ : ∃ m ∈ imageExecLines (mapLines gapMaps),
      (m.lo, m.hi, m.fo) = (0x7000200000, 0x7000600000, 0x100000) := by
    apply List.mem_map.mp
    rw [hlines]
    exact List.mem_cons_self
  simp only [Prod.mk.injEq] at hvalues
  obtain ⟨hlo, hhi, hfo⟩ := hvalues
  have hfrom : m.lo ≤ 0x7000200000 := by rw [hlo]; exact UInt64.le_refl _
  have hto : 0x7000200000 < m.hi := by rw [hhi]; decide
  have hoff := (hclaim 1 gapMaps _ hok m hm 0x7000200000 hfrom hto).2
  rw [hlo, hfo] at hoff
  exact absurd hoff (by decide)

end JniProbe
