import JniProbe.Properties.CallVariants
import JniProbe.System.VaListWords

/-!
What `decodeV` makes of a `va_list`. It shows the words that `va_arg` would
fetch, as long as the stack words are among those captured and no floating-point
argument before was spilled.
-/

namespace JniProbe

open GoText Aapcs64 VaList
open ParamType (mark onlyMethod)

/-- The kinds of the parameters, as the calling convention tells them apart. -/
def banksOf (params : List ParamType) : List Bool := params.map ParamType.isFp

/-- At `p` is the `va_list`, and the words that `va_arg` would fetch from it for
the general parameters can be read. -/
structure Readable (mem : UserMemory) (p : UInt64) (l : VaList) (params : List ParamType) :
    Prop where
  list : l.At mem p
  words : ∀ (i : Nat) (f : Fetched), (banksOf params)[i]? = some false →
    (l.fetches (banksOf params))[i]? = some f → ∃ w : UInt64, mem.word f.address 8 = some w.toNat

/-- The item is what `va_arg` would fetch for the parameter. -/
def ShowsFetched (mem : UserMemory) (l : VaList) (params : List ParamType) (i : Nat)
    (t : ParamType) (c : Caches) (mr : Option UserMemory) (item : Option Bytes) : Prop :=
  ∃ (f : Fetched) (w : UInt64), (l.fetches (banksOf params))[i]? = some f ∧
    mem.word f.address 8 = some w.toNat ∧ item = some (fmtJV t.desc w c mr)

section Fetched

variable {mem : UserMemory} {p : UInt64} {l : VaList} {params : List ParamType}

/-- The captured word is the one that is fetched, in a register or in a captured
stack slot that no spilled argument has moved. -/
theorem capturedWord_fetched {gp fp : Nat}
    (h : left 8 l.grOffs ≤ gp → gp - left 8 l.grOffs < ncapWords ∧
      8 * (fp - left 16 l.vrOffs).toUInt64 = 0) :
    capturedWord mem l gp =
      probeRead mem
        (l.wordFrom 0 0 0 (spot (left 8 l.grOffs) (left 16 l.vrOffs) gp fp)).address := by
  unfold capturedWord spot
  by_cases hroom : gp < left 8 l.grOffs
  · rw [if_pos hroom, if_pos hroom]
  · obtain ⟨hwindow, hmoved⟩ := h (by omega)
    have hsum : (gp - left 8 l.grOffs + (fp - left 16 l.vrOffs)).toUInt64 =
        (gp - left 8 l.grOffs).toUInt64 + (fp - left 16 l.vrOffs).toUInt64 := UInt64.ofNat_add _ _
    rw [if_neg hroom, if_neg hroom, if_pos hwindow]
    congr 1
    simp only [wordFrom, hsum]
    grind

theorem decodeV_fetched (hread : Readable mem p l params) (hregs : WholeRegisters l.grOffs)
    (htop : 0 < left 8 l.grOffs → l.grTop ≠ 0) (e : Evt) (ix : Fin nargs) (c : Caches)
    (mr : Option UserMemory) {i : Nat} {t : ParamType} (ht : params[i]? = some t)
    (hgeneral : t.isFp = false)
    (hspot : left 8 l.grOffs ≤ before false (banksOf params) i →
      before false (banksOf params) i - left 8 l.grOffs < ncapWords ∧
        8 * (before true (banksOf params) i - left 16 l.vrOffs).toUInt64 = 0) :
    ShowsFetched mem l params i t c mr
      (decodeV (capture mem e p 2 ix) (params.map ParamType.desc) c mr)[i]? := by
  have hbank : (banksOf params)[i]? = some false := by simp [banksOf, ht, hgeneral]
  have hfetch := l.fetches_general hbank
  obtain ⟨w, hw⟩ := hread.words i _ hbank hfetch
  have hsmall : before false (banksOf params) i < 2 ^ 32 := by
    have hle := hregs.left_le
    have hcap : ncapWords = 16 := rfl
    by_cases hroom : left 8 l.grOffs ≤ before false (banksOf params) i
    · have hwindow := (hspot hroom).1
      omega
    · omega
  have hshown := decodeV_captured hread.list e ix hregs htop c mr ht hgeneral hsmall
  rw [show params.map ParamType.isFp = banksOf params from rfl, capturedWord_fetched hspot,
    probeRead_of_word hw] at hshown
  exact ⟨_, w, hfetch, hw, hshown⟩

theorem decodeV_fp (e : Evt) (c : Caches) (mr : Option UserMemory) {i : Nat} {t : ParamType}
    (ht : params[i]? = some t) (hfp : t.isFp = true) :
    (decodeV e (params.map ParamType.desc) c mr)[i]? = some (str "?") := by
  have hdesc : (params.map ParamType.desc)[i]? = some t.desc := by simp [ht]
  exact decodeVFrom_fp e c mr _ _ _ hdesc ((desc_isFp t).mpr hfp)

end Fetched

/-! ### Lists in memory -/

namespace Scenario

/-- The offsets of a list in one word. -/
def offsWord (gr vr : Int32) : UInt64 :=
  vr.toUInt32.toUInt64 * 0x100000000 + gr.toUInt32.toUInt64

/-- A list at `p`, one marked word and zeroes. -/
def markedMemory (l : VaList) (p marked : UInt64) : UserMemory :=
  .ofWords (fun a =>
    if a = p then l.stack
    else if a = p + 8 then l.grTop
    else if a = p + 16 then l.vrTop
    else if a = p + 24 then offsWord l.grOffs l.vrOffs
    else if a = marked then mark
    else 0)

theorem offsWord_halves (gr vr : Int32) : (offsWord gr vr).toUInt32.toInt32 = gr ∧
    (offsWord gr vr >>> 32).toUInt32.toInt32 = vr := by
  have hgr := gr.toUInt32.toNat_lt
  have hvr := vr.toUInt32.toNat_lt
  have hword : (offsWord gr vr).toNat = vr.toUInt32.toNat * 0x100000000 + gr.toUInt32.toNat := by
    have hshift : (0x100000000 : UInt64).toNat = 0x100000000 := rfl
    rw [offsWord, UInt64.toNat_add, UInt64.toNat_mul, hshift, UInt32.toNat_toUInt64,
      UInt32.toNat_toUInt64]
    omega
  have hlow : (offsWord gr vr).toUInt32 = gr.toUInt32 := by
    apply UInt32.toNat_inj.mp
    rw [UInt64.toNat_toUInt32, hword]
    omega
  have hhigh : (offsWord gr vr >>> 32).toUInt32 = vr.toUInt32 := by
    apply UInt32.toNat_inj.mp
    have hamount : (32 : UInt64).toNat % 64 = 32 := rfl
    rw [UInt64.toNat_toUInt32, UInt64.toNat_shiftRight, hamount, Nat.shiftRight_eq_div_pow, hword]
    omega
  rw [hlow, hhigh]
  exact ⟨Int32.toInt32_toUInt32 gr, Int32.toInt32_toUInt32 vr⟩

/-- A list whose stack begins at `0x20000`. -/
def farList (gr vr : Int32) : VaList := ⟨0x20000, 0x3000, 0, gr, vr⟩

theorem readable_marked (gr vr : Int32) {p : UInt64} (marked : UInt64)
    (hp : p = 0x1000 ∨ p = 0x2000) (params : List ParamType) :
    Readable (markedMemory (farList gr vr) p marked) p (farList gr vr) params where
  list := by
    rcases hp with rfl | rfl
    · exact {
        readable := UserMemory.length_readRun_ofWords _ _ _
        stack := UserMemory.word_ofWords _ (by decide)
        grTop := UserMemory.word_ofWords _ (by decide)
        vrTop := UserMemory.word_ofWords _ (by decide)
        offs := ⟨offsWord gr vr, UserMemory.word_ofWords _ (by decide), offsWord_halves gr vr⟩ }
    · exact {
        readable := UserMemory.length_readRun_ofWords _ _ _
        stack := UserMemory.word_ofWords _ (by decide)
        grTop := UserMemory.word_ofWords _ (by decide)
        vrTop := UserMemory.word_ofWords _ (by decide)
        offs := ⟨offsWord gr vr, UserMemory.word_ofWords _ (by decide), offsWord_halves gr vr⟩ }
  words := by
    intro i f _ _
    exact UserMemory.exists_word_ofWords _ _

/-- A place for the list that the marked word does not touch. -/
theorem exists_apart (marked : UInt64) : ∃ p : UInt64, (p = 0x1000 ∨ p = 0x2000) ∧ marked ≠ p ∧
    marked ≠ p + 8 ∧ marked ≠ p + 16 ∧ marked ≠ p + 24 := by
  by_cases h : marked = 0x1000 ∨ marked = 0x1008 ∨ marked = 0x1010 ∨ marked = 0x1018
  · refine ⟨0x2000, Or.inr rfl, ?_⟩
    rcases h with rfl | rfl | rfl | rfl <;> decide
  · rw [not_or, not_or, not_or] at h
    exact ⟨0x1000, Or.inl rfl, h⟩

theorem markedMemory_marked (l : VaList) {p marked : UInt64} (halign : marked % 8 = 0)
    (hapart : marked ≠ p ∧ marked ≠ p + 8 ∧ marked ≠ p + 16 ∧ marked ≠ p + 24) :
    (markedMemory l p marked).word marked 8 = some mark.toNat := by
  obtain ⟨h0, h8, h16, h24⟩ := hapart
  rw [markedMemory, UserMemory.word_ofWords _ halign, if_neg h0, if_neg h8, if_neg h16, if_neg h24,
    if_pos rfl]

/-- The captured stack words are zero but for the marked one. -/
theorem markedMemory_stack (l : VaList) {p marked : UInt64} (hp : p = 0x1000 ∨ p = 0x2000) {k : Nat}
    (hk : k < 16) (hne : 0x20000 + 8 * k.toUInt64 ≠ marked) :
    (markedMemory l p marked).word (0x20000 + 8 * k.toUInt64) 8 = some 0 := by
  have hall : ∀ k < 16, (0x20000 + 8 * k.toUInt64) % 8 = 0 ∧
      0x20000 ≤ 0x20000 + 8 * k.toUInt64 := by
    decide
  obtain ⟨halign, hle⟩ := hall k hk
  have hbelow : p < 0x20000 ∧ p + 8 < 0x20000 ∧ p + 16 < 0x20000 ∧ p + 24 < 0x20000 := by
    rcases hp with rfl | rfl
    · decide
    · decide
  have hapart (a : UInt64) (ha : a < 0x20000) : 0x20000 + 8 * k.toUInt64 ≠ a := by
    rintro rfl
    exact absurd hle (UInt64.not_le.mpr ha)
  have h0 := hapart p hbelow.1
  have h8 := hapart (p + 8) hbelow.2.1
  have h16 := hapart (p + 16) hbelow.2.2.1
  have h24 := hapart (p + 24) hbelow.2.2.2
  rw [markedMemory, UserMemory.word_ofWords _ halign, if_neg h0, if_neg h8, if_neg h16, if_neg h24,
    if_neg hne]
  rfl

end Scenario

/-! ### Within the window -/

/-- Of a `va_list` with whole general registers left, whose vector area has room
for the floating-point parameters and from whose stack 16 words are taken at
most, `decodeV` shows the word that `va_arg` fetches for each general parameter
and `?` for the others. -/
theorem decodeV_follows_vaList {mem : UserMemory} {p : UInt64} {l : VaList}
    {params : List ParamType} (hread : Readable mem p l params)
    (hoffs : ∃ G ≤ 8, l.grOffs = Int32.ofInt (-(8 * (G : Nat)))) (htop : l.grTop ≠ 0)
    (hfit : (banksOf params).count true ≤ left 16 l.vrOffs)
    (hstack : (l.fetches (banksOf params)).countP (·.onStack) ≤ 16) (e : Evt) (ix : Fin nargs)
    (c : Caches) (mr : Option UserMemory) :
    (decodeV (capture mem e p 2 ix) (params.map ParamType.desc) c mr).length = params.length ∧
      ∀ (i : Nat) (t : ParamType), params[i]? = some t →
        (t.isFp = true →
          (decodeV (capture mem e p 2 ix) (params.map ParamType.desc) c mr)[i]? = some (str "?")) ∧
        (t.isFp = false → ShowsFetched mem l params i t c mr
          (decodeV (capture mem e p 2 ix) (params.map ParamType.desc) c mr)[i]?) := by
  constructor
  · rw [decodeV, length_decodeVFrom, List.length_map]
  · intro i t ht
    constructor
    · exact decodeV_fp _ c mr ht
    · intro hgeneral
      apply decodeV_fetched hread (Or.inr hoffs) (fun _ => htop) e ix c mr ht hgeneral
      intro hspilled
      have hbank : (banksOf params)[i]? = some false := by simp [banksOf, ht, hgeneral]
      -- no floating-point argument is on the stack
      have hbefore : before true (banksOf params) i ≤ left 16 l.vrOffs :=
        (List.Sublist.count_le true (List.take_sublist i _)).trans hfit
      have hnone : before true (banksOf params) i - left 16 l.vrOffs = 0 := by omega
      have hplace := List.mem_of_getElem? (place_general (left 8 l.grOffs) (left 16 l.vrOffs) hbank)
      rw [spot, if_neg (by omega), hnone, Nat.add_zero] at hplace
      have hlt := l.stack_lt_fetched hplace
      rw [hnone]
      exact ⟨by unfold ncapWords; omega, rfl⟩

open Scenario in
/-- With one register of each kind left, the second `int` is on the stack. -/
theorem follows_vaList_stack :
    ShowsFetched (markedMemory (farList (Int32.ofInt (-8)) (Int32.ofInt (-16))) 0x1000 0x20000)
      (farList (Int32.ofInt (-8)) (Int32.ofInt (-16))) [.int, .double, .int] 2 .int newCaches none
      (decodeV (capture (markedMemory (farList (Int32.ofInt (-8)) (Int32.ofInt (-16))) 0x1000
        0x20000) blank 0x1000 2 3) [str "I", str "D", str "I"] newCaches none)[2]? :=
  ((decodeV_follows_vaList (readable_marked _ _ _ (Or.inl rfl) _) ⟨1, by decide, rfl⟩
    (by decide) (by decide) (by decide) blank 3 newCaches none).2 2 .int rfl).2 rfl

/-! ### Words that are not fetched -/

/-- Every item that `decodeV` returns for a list with these offsets is `?` or what
`va_arg` would fetch for the parameter. -/
def NeverInvents (gr vr : Int32) (params : List ParamType) : Prop :=
  ∀ mem p l e ix c mr, l.grOffs = gr → l.vrOffs = vr → (0 < left 8 gr → l.grTop ≠ 0) →
    Readable mem p l params → ∀ (i : Nat) (t : ParamType), params[i]? = some t →
      (decodeV (capture mem e p 2 ix) (params.map ParamType.desc) c mr)[i]? = some (str "?") ∨
        ShowsFetched mem l params i t c mr
          (decodeV (capture mem e p 2 ix) (params.map ParamType.desc) c mr)[i]?

/-- Every general parameter on the stack is among the captured words, and what
was spilled of the floating-point ones before it leaves the stack cursor where it
is. -/
def StackCaptured (gr vr : Int32) (params : List ParamType) : Prop :=
  ∀ (i : Nat) (t : ParamType), params[i]? = some t → t.isFp = false →
    left 8 gr ≤ before false (banksOf params) i →
      before false (banksOf params) i - left 8 gr < ncapWords ∧
        8 * (before true (banksOf params) i - left 16 vr).toUInt64 = 0

/-- The cursor stays if nothing is spilled, and only then below `2 ^ 61` arguments. -/
theorem cursor_stays_iff {n : Nat} (h : n < 2 ^ 61) : 8 * n.toUInt64 = 0 ↔ n = 0 := by
  rw [← UInt64.toNat_inj]
  simp
  omega

theorem neverInvents_of_stackCaptured {gr vr : Int32} {params : List ParamType}
    (hregs : WholeRegisters gr) (h : StackCaptured gr vr params) : NeverInvents gr vr params := by
  intro mem p l e ix c mr hgr hvr htop hread i t ht
  rw [← hgr] at hregs htop
  cases hfp : t.isFp with
  | true => exact Or.inl (decodeV_fp _ c mr ht hfp)
  | false =>
      right
      apply decodeV_fetched hread hregs htop e ix c mr ht hfp
      rw [hgr, hvr]
      exact h i t ht hfp

/-- The word captured for a stack parameter is zero where the fetched slot, which
lies behind `f` spilled floating-point ones, is marked and another is read. -/
theorem capturedWord_missed {gr vr : Int32} {n f : Nat} {p : UInt64}
    (hp : p = 0x1000 ∨ p = 0x2000) (hspilled : left 8 gr ≤ n)
    (hmissed : n - left 8 gr < ncapWords → 8 * f.toUInt64 ≠ 0) :
    capturedWord (Scenario.markedMemory (Scenario.farList gr vr) p
      (0x20000 + 8 * (n - left 8 gr + f).toUInt64)) (Scenario.farList gr vr) n = 0 := by
  have hgrOffs : (Scenario.farList gr vr).grOffs = gr := rfl
  have hcap : ncapWords = 16 := rfl
  unfold capturedWord
  rw [hgrOffs, if_neg (by omega)]
  split
  · rename_i hwindow
    have haddr : ((Scenario.farList gr vr).wordFrom 0 0 0 (.stack (n - left 8 gr))).address =
        0x20000 + 8 * (n - left 8 gr).toUInt64 := by
      simp [wordFrom, Scenario.farList]
    have hne : 0x20000 + 8 * (n - left 8 gr).toUInt64 ≠
        0x20000 + 8 * (n - left 8 gr + f).toUInt64 := by
      intro heq
      have hmoved := hmissed hwindow
      have hsum : (n - left 8 gr + f).toUInt64 = (n - left 8 gr).toUInt64 + f.toUInt64 :=
        UInt64.ofNat_add _ _
      rw [hsum] at heq
      grind
    rw [haddr]
    exact probeRead_of_word (Scenario.markedMemory_stack (Scenario.farList gr vr) hp
      (by omega) hne)
  · rfl

/-- A parameter on the stack, for which `decodeV` does not read the fetched slot,
is shown as zero where the fetched word is not. -/
theorem not_neverInvents {gr vr : Int32} {params : List ParamType} (hregs : WholeRegisters gr)
    {i : Nat} {t : ParamType} (ht : params[i]? = some t) (hgeneral : t.isFp = false)
    (hspilled : left 8 gr ≤ before false (banksOf params) i)
    (hnear : before false (banksOf params) i - left 8 gr ≤ ncapWords)
    (hmissed : before false (banksOf params) i - left 8 gr < ncapWords →
      8 * (before true (banksOf params) i - left 16 vr).toUInt64 ≠ 0) :
    ¬ NeverInvents gr vr params := by
  intro h
  have hbank : (banksOf params)[i]? = some false := by simp [banksOf, ht, hgeneral]
  have hfetch := (Scenario.farList gr vr).fetches_general hbank
  have hcap : ncapWords = 16 := rfl
  have hsmall : before false (banksOf params) i < 2 ^ 32 := by
    have hle := hregs.left_le
    omega
  have hgrOffs : (Scenario.farList gr vr).grOffs = gr := rfl
  have hvrOffs : (Scenario.farList gr vr).vrOffs = vr := rfl
  have htop : (Scenario.farList gr vr).grTop ≠ 0 := by
    change (0x3000 : UInt64) ≠ 0
    decide
  rw [hgrOffs, hvrOffs, spot, if_neg (by omega)] at hfetch
  -- the word of the fetched slot is marked
  have hmarked : ∃ marked : UInt64, marked = 0x20000 + 8 * (before false (banksOf params) i -
      left 8 gr + (before true (banksOf params) i - left 16 vr)).toUInt64 := ⟨_, rfl⟩
  obtain ⟨marked, hmarked⟩ := hmarked
  obtain ⟨p, hp, hapart⟩ := Scenario.exists_apart marked
  have halign : marked % 8 = 0 := by
    rw [hmarked, ← UInt64.toNat_inj]
    simp
  have hword := Scenario.markedMemory_marked (Scenario.farList gr vr) halign hapart
  have hread := Scenario.readable_marked gr vr marked hp params
  have hcaptured : capturedWord (Scenario.markedMemory (Scenario.farList gr vr) p marked)
      (Scenario.farList gr vr) (before false (banksOf params) i) = 0 := by
    rw [hmarked]
    exact capturedWord_missed hp hspilled hmissed
  have hshown := decodeV_captured hread.list Scenario.blank 3 hregs (fun _ => htop) (onlyMethod [])
    none ht hgeneral hsmall
  rw [show params.map ParamType.isFp = banksOf params from rfl, hcaptured] at hshown
  obtain ⟨hdiffer, -, hzero⟩ := t.fmtJV_mark []
  rcases h _ _ _ Scenario.blank 3 (onlyMethod []) none rfl rfl (fun _ => htop) hread i t ht with
    hunknown | ⟨f, w, hf, hw, hitem⟩
  · rw [hshown, Option.some.injEq] at hunknown
    exact hzero hunknown
  · have haddr : f.address = marked := by
      rw [← Option.some.inj (hfetch.symm.trans hf), hmarked]
      simp [wordFrom, Scenario.farList]
    rw [haddr, hword, Option.some.injEq, UInt64.toNat_inj] at hw
    rw [hshown, Option.some.injEq, ← hw] at hitem
    exact hdiffer hitem.symm

/-- For every list that `va_start` and fetches produce, `decodeV` shows nothing but
`?` and fetched words exactly if all stack parameters are captured. -/
theorem never_invents_iff {gr vr : Int32} (hproduced : Produced gr vr)
    (params : List ParamType) : NeverInvents gr vr params ↔ StackCaptured gr vr params := by
  have hregs := hproduced.wholeRegisters
  constructor
  · intro h i t ht hgeneral hspilled
    by_contra hcond
    have hbank : (banksOf params)[i]? = some false := by simp [banksOf, ht, hgeneral]
    by_cases hwindow : before false (banksOf params) i - left 8 gr < ncapWords
    · apply not_neverInvents hregs ht hgeneral hspilled hwindow.le _ h
      intro _ hstays
      exact hcond ⟨hwindow, hstays⟩
    · -- the first parameter behind the captured words
      obtain ⟨j, hj, hnumber⟩ := exists_before hbank (n := left 8 gr + ncapWords) (by omega)
      have hparam : ∃ t', params[j]? = some t' ∧ t'.isFp = false := by
        simpa [banksOf] using hj
      obtain ⟨t', ht', hgeneral'⟩ := hparam
      apply not_neverInvents hregs ht' hgeneral' (by omega) (by omega) _ h
      intro hlt
      omega
  · exact neverInvents_of_stackCaptured hregs

/-- Five general and eight vector registers are left, as behind `env`, the receiver
and the method id: an `int` behind a spilled `double`, and the seventeenth stack
word. -/
theorem spilled_double_invents :
    Produced (Int32.ofInt (-40)) (Int32.ofInt (-128)) ∧
      ¬ NeverInvents (Int32.ofInt (-40)) (Int32.ofInt (-128))
        (List.replicate 5 .int ++ List.replicate 9 .double ++ [.int]) ∧
      ¬ NeverInvents (Int32.ofInt (-40)) (Int32.ofInt (-128)) (List.replicate 22 .int) := by
  have hproduced : Produced (Int32.ofInt (-40)) (Int32.ofInt (-128)) :=
    .start 5 8 (by decide) (by decide)
  refine ⟨hproduced, ?_, ?_⟩
  · have ht : (List.replicate 5 ParamType.int ++ List.replicate 9 .double ++ [.int])[14]? =
        some .int := rfl
    apply not_neverInvents hproduced.wholeRegisters ht rfl
    · decide
    · decide
    · decide
  · have ht : (List.replicate 22 ParamType.int)[21]? = some .int := rfl
    apply not_neverInvents hproduced.wholeRegisters ht rfl
    · decide
    · decide
    · decide

/-- An `int` and a `double` in registers. -/
theorem never_invents_registers :
    NeverInvents (Int32.ofInt (-40)) (Int32.ofInt (-128)) [.int, .double] := by
  apply (never_invents_iff (.start 5 8 (by decide) (by decide)) _).mpr
  intro i t ht _ hspilled
  have hlen : i < 2 := (List.getElem?_eq_some_iff.mp ht).1
  have hle := before_le false (banksOf [.int, .double]) i
  rw [left_wholeRegisters (by decide)] at hspilled
  omega

end JniProbe
