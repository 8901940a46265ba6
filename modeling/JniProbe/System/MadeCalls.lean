import JniProbe.System.Scenario
import JniProbe.System.Variants

/-!
Calls with given arguments: registers, a `va_list` and an array that hold
them, and the records of the three calls.
-/

namespace JniProbe.Scenario

open Aapcs64

/-- An entry at this offset with these registers and this memory. -/
def callCtx (S : Session) (off : UInt64) (parm : Vector UInt64 nargs) (mem : UserMemory) :
    ProbeCtx :=
  { registers parm with ip := off + S.base, mem := mem }

def callEvt (S : Session) (off : UInt64) (parm : Vector UInt64 nargs) (mem : UserMemory) : Evt :=
  entryEvt S.maps 0 (callCtx S off parm mem) blank

/-- The method id in its register and the given words behind it. -/
def callParm (ix : Fin nargs) (mid : UInt64) (rest : Nat → UInt64) : Vector UInt64 nargs :=
  Vector.ofFn (fun k => if k = ix then mid else rest (k.val - (ix.val + 1)))

theorem callParm_behind (ix : Fin nargs) (mid : UInt64) (rest : Nat → UInt64) (k : Nat)
    (h : ix.val + 1 + k < nargs) : (callParm ix mid rest)[ix.val + 1 + k]? = some (rest k) := by
  have hne : (⟨ix.val + 1 + k, h⟩ : Fin nargs) ≠ ix := by
    intro heq
    have hval : ix.val + 1 + k = ix.val := congrArg Fin.val heq
    omega
  simp [callParm, Vector.getElem?_eq_getElem h, hne]

theorem entryOf_callEvt (S : Session) (off : UInt64) (ix : Fin nargs) (mid : UInt64)
    (rest : Nat → UInt64) (mem : UserMemory) :
    EntryOf S off ix mid (callCtx S off (callParm ix mid rest) mem)
      (callEvt S off (callParm ix mid rest) mem) where
  offset := UInt64.add_sub_cancel off S.base
  method := by
    have hget : (callParm ix mid rest)[ix.val] = mid := by simp [callParm]
    exact hget
  record := ⟨0, blank, rfl⟩

/-! ### Arguments one by one -/

/-- Words that hold the arguments, put where the arguments are passed. -/
theorem passed_layOut (G V : Nat) {args : List Arg} {words : List UInt64}
    (h : List.Forall₂ Arg.InSlot args words) (dflt : UInt64) :
    Passed G V args (layOut (place G V (args.map Arg.isFp)) words dflt) := by
  intro i a p ha hp
  have hi : i < args.length := (List.getElem?_eq_some_iff.mp ha).1
  have hlt : i < words.length := h.length_eq ▸ hi
  have hslot := h.get hi hlt
  rw [List.getElem?_eq_getElem hi, Option.some.injEq] at ha
  rw [layOut_place dflt (place_nodup G V _) hp (List.getElem?_eq_getElem hlt)]
  rwa [← ha]

theorem inRegisters_callCtx (S : Session) (off : UInt64) {ix : Fin nargs} (mid : UInt64)
    {args : List Arg} {contents : Place → UInt64} (mem : UserMemory)
    (h : Passed (7 - ix.val) 8 args contents) :
    InRegisters (callCtx S off (callParm ix mid (fun k => contents (.gr k))) mem) ix args
      contents where
  passed := h
  registers := by
    intro k w hw
    have hlt : ix.val + 1 + k < nargs := (Vector.getElem?_eq_some_iff.mp hw).1
    have hbehind := callParm_behind ix mid (fun k => contents (.gr k)) k hlt
    exact Option.some.inj (hw.symm.trans hbehind)

/-! ### A `va_list` -/

/-- A `va_list` at `0x1000`, with its save area below `0x3000` and its stack
from `0x20000` on. -/
def vaListMemory (G : Nat) (contents : Place → UInt64) : UserMemory :=
  .ofWords (fun a =>
    if a = 0x1000 then 0x20000
    else if a = 0x1008 then 0x3000
    else if a = 0x1018 then (Int32.ofInt (-(8 * G))).toUInt32.toUInt64
    else if a < 0x20000 then contents (.gr (G - ((0x3000 - a) / 8).toNat))
    else contents (.stack ((a - 0x20000) / 8).toNat))

/-- The words of an array of at most 256 words: their addresses and numbers. -/
theorem wordAddress (base : UInt64) (halign : base % 8 = 0) (hroom : base < 0x1000000) {k : Nat}
    (hk : k < 256) : (base + k.toUInt64 * 8) % 8 = 0 ∧ base ≤ base + k.toUInt64 * 8 ∧
      ((base + k.toUInt64 * 8 - base) / 8).toNat = k := by
  have hbase : base.toNat < 0x1000000 := UInt64.lt_iff_toNat_lt.mp hroom
  have hmod : base.toNat % 8 = 0 := by
    have hnat := congrArg UInt64.toNat halign
    simpa using hnat
  have hoffset : base + k.toUInt64 * 8 - base = k.toUInt64 * 8 := by grind
  refine ⟨?_, ?_, ?_⟩
  · apply UInt64.toNat_inj.mp
    simp
    omega
  · rw [UInt64.le_iff_toNat_le]
    simp
    omega
  · rw [hoffset]
    simp
    omega

theorem vaListMemory_stack (G : Nat) (contents : Place → UInt64) {k : Nat} (h : k < 256) :
    (vaListMemory G contents).word (0x20000 + k.toUInt64 * 8) 8 =
      some (contents (.stack k)).toNat := by
  obtain ⟨halign, hle, hindex⟩ := wordAddress 0x20000 (by decide) (by decide) h
  have hnot (a : UInt64) (ha : a < 0x20000) : 0x20000 + k.toUInt64 * 8 ≠ a := by
    rintro rfl
    exact absurd hle (UInt64.not_le.mpr ha)
  rw [vaListMemory, UserMemory.word_ofWords _ halign, if_neg (hnot _ (by decide)),
    if_neg (hnot _ (by decide)), if_neg (hnot _ (by decide)),
    if_neg (UInt64.not_lt.mpr hle), hindex]

theorem holdsVaList (G V : Nat) {args : List Arg} {contents : Place → UInt64} (hG : G ≤ 8)
    (hargs : args.length < 256) (h : Passed G V args contents) :
    HoldsVaList (vaListMemory G contents) 0x1000 G V args 0x20000 0x3000
      (Int32.ofInt (-(8 * G))).toUInt32.toUInt64 contents where
  readable := UserMemory.length_readRun_ofWords _ _ _
  stackWord := UserMemory.word_ofWords _ (by decide)
  topWord := UserMemory.word_ofWords _ (by decide)
  offsWord := UserMemory.word_ofWords _ (by decide)
  offset := by rw [UInt32.toUInt32_toUInt64, Int32.toInt32_toUInt32]
  nonnull _ := by decide
  passed := h
  saved := by
    intro k hmem
    obtain ⟨i, hi⟩ := List.mem_iff_getElem?.mp hmem
    have hk := (general_of_gr G V hi).2
    have haddr : ∀ j ≤ 8, 0 < j → (0x3000 - (j : Nat).toUInt64 * 8) % 8 = 0 ∧
        0x3000 - j.toUInt64 * 8 ≠ 0x1000 ∧ 0x3000 - j.toUInt64 * 8 ≠ 0x1008 ∧
        0x3000 - j.toUInt64 * 8 ≠ 0x1018 ∧ 0x3000 - j.toUInt64 * 8 < 0x20000 ∧
        ((0x3000 - (0x3000 - j.toUInt64 * 8)) / 8).toNat = j := by
      decide
    obtain ⟨halign, hstk, htop, hoffs, hbelow, hindex⟩ := haddr (G - k) (by omega) (by omega)
    have hnumber : G - (G - k) = k := by omega
    rw [vaListMemory, UserMemory.word_ofWords _ halign, if_neg hstk, if_neg htop, if_neg hoffs,
      if_pos hbelow, hindex, hnumber]
  spilled := by
    intro k hmem
    have hlt := stack_lt_of_mem G V hmem
    exact vaListMemory_stack G contents (by simp at hlt; omega)

/-! ### An array -/

def arrayMemory (words : List UInt64) : UserMemory :=
  .ofWords (fun a => words.getD ((a - 0x40000) / 8).toNat 0)

theorem inArray (words : List UInt64) {args : List Arg} (hargs : args.length < 256)
    (h : List.Forall₂ Arg.InUnion args words) : InArray (arrayMemory words) 0x40000 args := by
  intro i a ha
  have hi : i < args.length := (List.getElem?_eq_some_iff.mp ha).1
  obtain ⟨halign, -, hindex⟩ := wordAddress 0x40000 (by decide) (by decide)
    (show i < 256 by omega)
  have hlt : i < words.length := h.length_eq ▸ hi
  refine ⟨words[i], ?_, ?_⟩
  · rw [arrayMemory, UserMemory.word_ofWords _ halign, hindex]
    simp [hlt]
  · have hunion := h.get hi hlt
    rw [List.getElem?_eq_getElem hi, Option.some.injEq] at ha
    rwa [← ha]

/-! ### The three records -/

section Records

variable (S : Session) (off : UInt64) (ix : Fin nargs) (mid : UInt64)

def directEvt (contents : Place → UInt64) : Evt :=
  callEvt S off (callParm ix mid (fun k => contents (.gr k))) (fun _ => none)

def vaListEvt (G : Nat) (contents : Place → UInt64) : Evt :=
  callEvt S off (callParm ix mid (fun _ => 0x1000)) (vaListMemory G contents)

def arrayEvt (words : List UInt64) : Evt :=
  callEvt S off (callParm ix mid (fun _ => 0x40000)) (arrayMemory words)

variable {args : List Arg} {contents : Place → UInt64} {G V : Nat} {words : List UInt64}

theorem entryOf_directEvt : EntryOf S off ix mid
    (callCtx S off (callParm ix mid (fun k => contents (.gr k))) (fun _ => none))
    (directEvt S off ix mid contents) :=
  entryOf_callEvt S off ix mid _ _

theorem entryOf_vaListEvt : EntryOf S off ix mid
    (callCtx S off (callParm ix mid (fun _ => 0x1000)) (vaListMemory G contents))
    (vaListEvt S off ix mid G contents) :=
  entryOf_callEvt S off ix mid _ _

theorem calledDirect (h : Passed (7 - ix.val) 8 args contents) :
    CalledDirect S off ix mid args (directEvt S off ix mid contents) :=
  ⟨_, _, entryOf_directEvt S off ix mid, inRegisters_callCtx S off mid _ h⟩

variable (hroom : ix.val + 1 < nargs) (hlen : args.length < 256)
include hroom hlen

theorem calledVaList (hG : G ≤ 8) (h : Passed G V args contents) :
    CalledVaList S off ix G V mid args (vaListEvt S off ix mid G contents) :=
  ⟨_, _, _, _, _, _, entryOf_vaListEvt S off ix mid, callParm_behind ix mid _ 0 hroom,
    holdsVaList G V hG hlen h⟩

theorem calledJvalues (h : List.Forall₂ Arg.InUnion args words) :
    CalledJvalues S off ix mid args (arrayEvt S off ix mid words) :=
  ⟨_, _, entryOf_callEvt S off ix mid _ _, callParm_behind ix mid _ 0 hroom,
    inArray words hlen h⟩

end Records

end JniProbe.Scenario
