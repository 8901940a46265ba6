import JniProbe.Loader.Modules
import JniProbe.System.Scenario

/-!
The module and the offset that a stack frame shows. Ranges are looked up by
address, but load biases by base name, and the path is what stands before the
first space of it. Both are compared with the mapping that the address lies in.
-/

namespace JniProbe

open GoText GoFormat GoNumber

/-! ### The maps as the kernel writes them -/

/-- A mapping; an anonymous one has no path. -/
structure Mapping where
  lo : UInt64
  hi : UInt64
  fo : UInt64
  perms : Bytes
  dev : Bytes
  inode : Bytes
  pad : Nat
  path : Bytes
  deleted : Bool
  ordered : lo < hi
  words : IsWord perms ∧ IsWord dev ∧ IsWord inode
  oneLine : 10 ∉ path

namespace Mapping

/-- The path, with the mark of a file that is no longer there. -/
def shown (m : Mapping) : Bytes :=
  if m.path = [] then [] else m.path ++ if m.deleted then str " (deleted)" else []

def text (m : Mapping) : Bytes :=
  (padded 16 8 m.lo.toNat ++ 45 :: padded 16 8 m.hi.toNat) ++ 32 :: (m.perms ++ 32 ::
    (padded 16 8 m.fo.toNat ++ 32 :: (m.dev ++ 32 :: (m.inode ++ 32 ::
      (List.replicate m.pad 32 ++ m.shown)))))

/-- A mapping of a file, not one of those that the kernel names in brackets. -/
def IsFile (m : Mapping) : Prop := m.path.head? = some 47 ∧ m.path.getLast? ≠ some 47

def SameFile (m m' : Mapping) : Prop := m.path = m'.path ∧ m.deleted = m'.deleted

/-- The name the loader gives the mapping: its path is cut at the first space. -/
def name (m : Mapping) : Option Bytes := (fields m.shown).head?.map baseName

def Disjoint (m m' : Mapping) : Prop := m.hi ≤ m'.lo ∨ m'.hi ≤ m.lo

instance : Std.Symm Disjoint := ⟨fun _ _ h => h.symm⟩

end Mapping

/-- `/proc/<pid>/maps` -/
def mapsText (ms : List Mapping) : Bytes := ms.flatMap (fun m => m.text ++ [10])

namespace Mapping

theorem padded_word (v : UInt64) : IsWord (padded 16 8 v.toNat) := by
  refine ⟨?_, ?_⟩
  · intro h
    exact digits_ne_nil 16 v.toNat (List.append_eq_nil_iff.mp h).2
  · intro b hb
    obtain ⟨d, hd, rfl⟩ := mem_padded (by decide) hb
    have hall : ∀ d : Fin 16, startsSpace (digitByte d) = false := by decide
    exact hall ⟨d, hd⟩

theorem dash_notMem_padded (v : UInt64) : 45 ∉ padded 16 8 v.toNat := by
  intro h
  obtain ⟨d, hd, hbyte⟩ := mem_padded (by decide) h
  have hall : ∀ d : Fin 16, 45 ≠ digitByte d := by decide
  exact hall ⟨d, hd⟩ hbyte

theorem range_word (m : Mapping) :
    IsWord (padded 16 8 m.lo.toNat ++ 45 :: padded 16 8 m.hi.toNat) := by
  refine ⟨by simp, ?_⟩
  intro b hb
  rcases List.mem_append.mp hb with hlo | hrest
  · exact (padded_word m.lo).2 b hlo
  · rcases List.mem_cons.mp hrest with rfl | hhi
    · decide
    · exact (padded_word m.hi).2 b hhi

/-- The loader reads range and offset of a line as they are, and some of the path. -/
theorem moduleLine_text (m : Mapping) :
    moduleLine m.text = m.name.map (fun nm => (⟨m.lo, m.hi, nm⟩, m.fo)) := by
  obtain ⟨hperms, hdev, hinode⟩ := m.words
  have hvalue (v : UInt64) : parseUintValue (padded 16 8 v.toNat) 16 = v := by
    rw [parseUintValue, parseUint_padded (by decide) (by decide)]
  rw [moduleLine, text, fields_word_space m.range_word, fields_word_space hperms,
    fields_word_space (padded_word m.fo), fields_word_space hdev, fields_word_space hinode,
    fields_spaces, name]
  cases fields m.shown with
  | nil => rfl
  | cons path rest =>
      simp only [splitTwo_append _ _ (dash_notMem_padded m.lo), Option.map_some, hvalue,
        List.head?_cons]

theorem newline_notMem_text (m : Mapping) : 10 ∉ m.text := by
  have hword {s : Bytes} (h : IsWord s) : 10 ∉ s := by
    intro hmem
    have hspace := h.2 10 hmem
    exact absurd hspace (by decide)
  have hmark : 10 ∉ str " (deleted)" := by decide
  have hshown : 10 ∉ m.shown := by
    unfold shown
    split
    · exact List.not_mem_nil
    · rw [List.mem_append]
      rintro (hpath | hdeleted)
      · exact m.oneLine hpath
      · split at hdeleted
        · exact hmark hdeleted
        · exact List.not_mem_nil hdeleted
  simp [text, hword (padded_word m.lo), hword (padded_word m.hi), hword (padded_word m.fo),
    hword m.words.1, hword m.words.2.1, hword m.words.2.2, hshown]

/-! ### What is loaded -/

/-- The range that the loader stores for the mapping. -/
def range (m : Mapping) : Option ModuleRange := m.name.map (fun nm => ⟨m.lo, m.hi, nm⟩)

/-- A mapping from offset 0 to which the loader gives this name. -/
def Starts (m : Mapping) (nm : Bytes) : Prop := m.fo = 0 ∧ m.name = some nm

instance (m : Mapping) (nm : Bytes) : Decidable (m.Starts nm) :=
  inferInstanceAs (Decidable (_ ∧ _))

end Mapping

/-- The mapping whose start is the bias of a name: the first from offset 0. -/
def biasMapping (ms : List Mapping) (nm : Bytes) : Option Mapping :=
  ms.find? (fun m => m.Starts nm)

theorem add_text (mm : ModuleMap) (m : Mapping) : mm.add m.text =
    ⟨mm.ranges ++ m.range.toList,
      fun nm => (mm.bias nm).or (if m.Starts nm then some m.lo else none)⟩ := by
  rw [ModuleMap.add, Mapping.moduleLine_text, Mapping.range]
  cases hname : m.name with
  | none =>
      have hstarts (nm : Bytes) : ¬ m.Starts nm := by
        rintro ⟨-, hsome⟩
        rw [hname] at hsome
        cases hsome
      simp [hstarts]
  | some own =>
      have hstarts (nm : Bytes) : m.Starts nm ↔ m.fo = 0 ∧ nm = own := by
        rw [Mapping.Starts, hname, Option.some.injEq, eq_comm (a := own)]
      simp only [Option.map_some, Option.toList_some, ModuleMap.mk.injEq, true_and, hstarts]
      funext nm
      by_cases hfo : m.fo = 0
      · rw [if_pos hfo]
        by_cases hnm : nm = own
        · subst hnm
          cases hbias : mm.bias nm with
          | none => simp [hfo]
          | some b => simp [hbias]
        · have hother : (Function.update mm.bias own (some m.lo)) nm = mm.bias nm :=
            Function.update_of_ne hnm _ _
          split
          · simp [hnm]
          · simp [hnm]
      · simp [hfo]

/-- What the loop over the lines leaves. -/
theorem foldl_add_text (ms : List Mapping) :
    (ms.map Mapping.text).foldl ModuleMap.add ModuleMap.empty =
      ⟨ms.filterMap Mapping.range, fun nm => (biasMapping ms nm).map Mapping.lo⟩ := by
  induction ms using List.reverseRecOn with
  | nil => rfl
  | append_singleton ms m ih =>
      rw [List.map_append, List.map_singleton, List.foldl_concat, ih, add_text]
      simp only [ModuleMap.mk.injEq]
      constructor
      · rw [List.filterMap_append]
        cases hrange : m.range with
        | none => simp [hrange]
        | some range => simp [hrange]
      · funext nm
        rw [biasMapping, biasMapping, List.find?_append]
        cases ms.find? (fun m => m.Starts nm) with
        | some first => simp
        | none =>
            by_cases hstarts : m.Starts nm
            · simp [hstarts]
            · simp [hstarts]

/-- Of a maps text the loader keeps a range for each mapping with a path, and
for each name the start of its first mapping from offset 0. -/
theorem loadModules_text (ms : List Mapping) : loadModules (some (mapsText ms)) =
    ⟨ms.filterMap Mapping.range, fun nm => (biasMapping ms nm).map Mapping.lo⟩ := by
  have hlines : ∀ l ∈ ms.map Mapping.text, (10 : UInt8) ∉ l := by
    intro l hl
    obtain ⟨m, -, rfl⟩ := List.mem_map.mp hl
    exact m.newline_notMem_text
  have hmaps : mapsText ms = (ms.map Mapping.text).flatMap (fun l => l ++ [10]) := by
    rw [mapsText, List.flatMap_map]
  have hlast (mm : ModuleMap) : mm.add [] = mm := rfl
  rw [loadModules, hmaps, split_lines hlines, List.foldl_concat, hlast, foldl_add_text]

/-! ### Looking up an address -/

section Lookup

variable {ms : List Mapping}

/-- An address lies in one mapping only. -/
theorem mapping_unique (hdisjoint : ms.Pairwise Mapping.Disjoint) {m m' : Mapping} (hm : m ∈ ms)
    (hm' : m' ∈ ms) {a : UInt64} (hin : m.lo ≤ a ∧ a < m.hi) (hin' : m'.lo ≤ a ∧ a < m'.hi) :
    m = m' := by
  by_contra hne
  rcases hdisjoint.forall hm hm' hne with h | h
  · exact UInt64.not_le.mpr hin.2 (UInt64.le_trans h hin'.1)
  · exact UInt64.not_le.mpr hin'.2 (UInt64.le_trans h hin.1)

theorem moduleOf_mapping (hdisjoint : ms.Pairwise Mapping.Disjoint) {m : Mapping} (hm : m ∈ ms)
    {a : UInt64} (hin : m.lo ≤ a ∧ a < m.hi) :
    moduleOf (ms.filterMap Mapping.range) a = m.name.getD [] := by
  unfold moduleOf
  cases hfound : (ms.filterMap Mapping.range).find? (fun r => r.lo ≤ a && a < r.hi) with
  | none =>
      cases hname : m.name with
      | none => rfl
      | some nm =>
          have hmem : (⟨m.lo, m.hi, nm⟩ : ModuleRange) ∈ ms.filterMap Mapping.range :=
            List.mem_filterMap.mpr ⟨m, hm, by rw [Mapping.range, hname, Option.map_some]⟩
          have hnone := List.find?_eq_none.mp hfound _ hmem
          simp [hin.1, hin.2] at hnone
  | some r =>
      have hr := List.find?_some hfound
      obtain ⟨m', hm', hrange⟩ := List.mem_filterMap.mp (List.mem_of_find?_eq_some hfound)
      obtain ⟨nm, hname, rfl⟩ := Option.map_eq_some_iff.mp hrange
      rw [Bool.and_eq_true, decide_eq_true_eq, decide_eq_true_eq] at hr
      rw [mapping_unique hdisjoint hm hm' hin hr, hname]
      rfl

/-- What a lookup returns for an address in a mapping. -/
theorem lookup_mapping (hdisjoint : ms.Pairwise Mapping.Disjoint) {m : Mapping} (hm : m ∈ ms)
    {a : UInt64} (hin : m.lo ≤ a ∧ a < m.hi) :
    (loadModules (some (mapsText ms))).lookup a =
      if m.name.getD [] = [] then ([], 0)
      else (m.name.getD [], ((biasMapping ms (m.name.getD [])).map Mapping.lo).getD 0) := by
  rw [loadModules_text, ModuleMap.lookup, moduleOf_mapping hdisjoint hm hin]

end Lookup

/-- The name of a file is not empty. -/
theorem Mapping.IsFile.baseName_ne_nil {m : Mapping} (h : m.IsFile) : baseName m.path ≠ [] := by
  obtain ⟨hfirst, hlast⟩ := h
  have hslash : 47 ∈ m.path := List.mem_of_mem_head? hfirst
  obtain ⟨before, after, hpath, hafter⟩ := exists_last_of_mem hslash
  rw [hpath] at hlast ⊢
  rw [baseName, lastIndexByte_append before after 47 hafter]
  intro hnil
  have hempty : after = [] := by simpa [List.drop_append] using hnil
  rw [hempty] at hlast
  simp at hlast

/-! ### Frames relative to the right bias -/

/-- Somewhere the file of the mapping is mapped from its beginning. -/
def Anchored (ms : List Mapping) (m : Mapping) : Prop :=
  m.IsFile ∧ ∃ m₀ ∈ ms, m₀.SameFile m ∧ m₀.fo = 0

/-- Every address in such a mapping is shown by the name of the file, relative
to a mapping of the beginning of this file. -/
def RightBias (ms : List Mapping) : Prop :=
  ∀ m ∈ ms, Anchored ms m → ∀ a, m.lo ≤ a → a < m.hi →
    ∃ m₀ ∈ ms, m₀.SameFile m ∧ m₀.fo = 0 ∧
      (loadModules (some (mapsText ms))).lookup a = (baseName m.path, m₀.lo) ∧
      ∀ cfg stackMap ind id lr idx, FrameAt cfg stackMap id lr idx a →
        (printStack cfg (loadModules (some (mapsText ms))) stackMap ind id lr)[idx]? =
          some (ind ++ str "   #" ++ digits 10 idx ++ str " " ++ baseName m.path ++ str "+" ++
            hex (a - m₀.lo))

/-- The name is not cut short by a space, and the first mapping from offset 0
that gets this name is one of the same file. -/
def NameDecides (ms : List Mapping) (m : Mapping) : Prop :=
  m.name = some (baseName m.path) ∧
    ∀ first, biasMapping ms (baseName m.path) = some first → first.SameFile m

theorem Mapping.SameFile.name_eq {m m' : Mapping} (h : m.SameFile m') : m.name = m'.name := by
  rw [Mapping.name, Mapping.name, Mapping.shown, Mapping.shown, h.1, h.2]

/-- The frames of a stack are relative to the right bias exactly if the name of
every file with a mapping from offset 0 decides the file. -/
theorem right_bias_iff (ms : List Mapping) (hdisjoint : ms.Pairwise Mapping.Disjoint) :
    RightBias ms ↔ ∀ m ∈ ms, Anchored ms m → NameDecides ms m := by
  constructor
  · intro h m hm hanchored
    have hne := hanchored.1.baseName_ne_nil
    obtain ⟨m₀, hm₀, hsame, hfo, hlookup, -⟩ :=
      h m hm hanchored m.lo (UInt64.le_refl _) m.ordered
    rw [lookup_mapping hdisjoint hm ⟨UInt64.le_refl _, m.ordered⟩] at hlookup
    split at hlookup
    · exact absurd (congrArg Prod.fst hlookup).symm hne
    · rename_i hnamed
      obtain ⟨hname, hbias⟩ := Prod.mk.inj hlookup
      have hsome : m.name = some (baseName m.path) := by
        cases hown : m.name with
        | none => simp [hown] at hnamed
        | some nm =>
            rw [hown, Option.getD_some] at hname
            rw [hname]
      refine ⟨hsome, ?_⟩
      intro first hfirst
      rw [hname, hfirst, Option.map_some, Option.getD_some] at hbias
      have hmem : first ∈ ms := List.mem_of_find?_eq_some hfirst
      have hin : first.lo ≤ m₀.lo ∧ m₀.lo < first.hi := hbias ▸ ⟨UInt64.le_refl _, first.ordered⟩
      rwa [mapping_unique hdisjoint hmem hm₀ hin ⟨UInt64.le_refl _, m₀.ordered⟩]
  · intro h m hm hanchored a hlo hhi
    obtain ⟨hname, hfirst⟩ := h m hm hanchored
    obtain ⟨hfile, m₀, hm₀, hsame, hfo⟩ := hanchored
    have hne := hfile.baseName_ne_nil
    have hstarts : m₀.Starts (baseName m.path) := ⟨hfo, hsame.name_eq.trans hname⟩
    cases hbias : biasMapping ms (baseName m.path) with
    | none =>
        have hnone := List.find?_eq_none.mp hbias m₀ hm₀
        exact absurd (decide_eq_true hstarts) hnone
    | some first =>
        have hlookup : (loadModules (some (mapsText ms))).lookup a =
            (baseName m.path, first.lo) := by
          rw [lookup_mapping hdisjoint hm ⟨hlo, hhi⟩, hname, Option.getD_some, if_neg hne, hbias]
          rfl
        have hfound := List.find?_some hbias
        rw [decide_eq_true_eq] at hfound
        refine ⟨first, List.mem_of_find?_eq_some hbias, hfirst first hbias, hfound.1, hlookup, ?_⟩
        intro cfg stackMap ind id lr idx hframe
        rw [hframe.printed, frameLine, hlookup]
        exact congrArg some (if_pos hne)

namespace Scenario

/-- A segment of a file. -/
def segment (lo hi fo : UInt64) (path : Bytes) (h : lo < hi) (hline : 10 ∉ path) :
    Mapping where
  lo := lo
  hi := hi
  fo := fo
  perms := str "r-xp"
  dev := str "fe:00"
  inode := str "10"
  pad := 1
  path := path
  deleted := false
  ordered := h
  words := by
    have hword {s : Bytes} (hne : s ≠ []) (hall : s.all (fun b => !startsSpace b) = true) :
        IsWord s := ⟨hne, by simpa using hall⟩
    exact ⟨hword (by decide) (by decide), hword (by decide) (by decide),
      hword (by decide) (by decide)⟩
  oneLine := hline

/-- Two libraries of one name. -/
def sameNameMaps : List Mapping :=
  [segment 0x7000000000 0x7000100000 0 (str "/system/lib64/libc++.so") (by decide) (by decide),
    segment 0x7000200000 0x7000300000 0 (str "/vendor/lib64/libc++.so") (by decide) (by decide)]

/-- Two segments of one library. -/
def oneLibraryMaps : List Mapping :=
  [segment 0x7000000000 0x7000100000 0 (str "/system/lib64/libc++.so") (by decide) (by decide),
    segment 0x7000100000 0x7000300000 0x100000 (str "/system/lib64/libc++.so") (by decide)
      (by decide)]

end Scenario

open Scenario in
/-- An address in the second library is shown relative to the first one. -/
theorem same_name_wrong_bias :
    mapsText sameNameMaps =
        str "7000000000-7000100000 r-xp 00000000 fe:00 10  /system/lib64/libc++.so\n" ++
          str "7000200000-7000300000 r-xp 00000000 fe:00 10  /vendor/lib64/libc++.so\n" ∧
      (loadModules (some (mapsText sameNameMaps))).lookup 0x7000200040 =
        (str "libc++.so", 0x7000000000) ∧
      ¬ RightBias sameNameMaps := by
  have hlookup : (loadModules (some (mapsText sameNameMaps))).lookup 0x7000200040 =
      (str "libc++.so", 0x7000000000) := by
    decide +kernel
  refine ⟨by decide +kernel, hlookup, ?_⟩
  intro h
  have hfile : Mapping.IsFile sameNameMaps[1] := ⟨rfl, by decide +kernel⟩
  obtain ⟨m₀, hm₀, hsame, -, hright, -⟩ := h sameNameMaps[1] (List.getElem_mem _)
    ⟨hfile, sameNameMaps[1], List.getElem_mem _, ⟨rfl, rfl⟩, rfl⟩ 0x7000200040 (by decide)
    (by decide)
  rw [hlookup] at hright
  have hlo : 0x7000000000 = m₀.lo := congrArg Prod.snd hright
  rcases List.mem_pair.mp hm₀ with rfl | rfl
  · exact absurd hsame.1 (by decide)
  · exact absurd hlo (by decide)

open Scenario in
/-- In a library that is mapped in two segments every address is shown right. -/
theorem one_library_right_bias : RightBias oneLibraryMaps := by
  have hdisjoint : oneLibraryMaps.Pairwise Mapping.Disjoint := by
    apply List.pairwise_pair.mpr
    left
    decide
  apply (right_bias_iff oneLibraryMaps hdisjoint).mpr
  intro m hm _
  have hbias : biasMapping oneLibraryMaps (str "libc++.so") = some oneLibraryMaps[0] := by
    rfl
  have hnames : m.name = some (str "libc++.so") ∧ baseName m.path = str "libc++.so" ∧
      oneLibraryMaps[0].SameFile m := by
    rcases List.mem_pair.mp hm with rfl | rfl
    · exact ⟨by decide +kernel, by decide +kernel, rfl, rfl⟩
    · exact ⟨by decide +kernel, by decide +kernel, rfl, rfl⟩
  obtain ⟨hname, hbase, hsame⟩ := hnames
  rw [NameDecides, hbase, hbias]
  refine ⟨hname, ?_⟩
  rintro first hfirst
  rwa [← Option.some.inj hfirst]

end JniProbe
