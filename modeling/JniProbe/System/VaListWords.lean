import JniProbe.Lib.VaList
import JniProbe.System.Variants

/-!
What `decodeV` shows of a `va_list` in memory, by the number of general
parameters before: a word of the save area as long as registers are left, then
the words of the stack that are captured, then zero.
-/

namespace JniProbe

open GoText Aapcs64 VaList

/-- The word that is captured for the general parameter number `n`. -/
def capturedWord (mem : UserMemory) (l : VaList) (n : Nat) : UInt64 :=
  if n < left 8 l.grOffs then probeRead mem (l.wordFrom 0 0 0 (.gr n)).address
  else if n - left 8 l.grOffs < ncapWords then
    probeRead mem (l.wordFrom 0 0 0 (.stack (n - left 8 l.grOffs))).address
  else 0

section Captured

variable {mem : UserMemory} {p : UInt64} {l : VaList} (hat : l.At mem p) (e : Evt)
  (ix : Fin nargs)
include hat

theorem capture_vaList :
    (capture mem e p 2 ix).vstk = l.stack ∧ (capture mem e p 2 ix).vgr = l.grTop ∧
      (capture mem e p 2 ix).vgoff = l.grOffs.toInt64 ∧
      (capture mem e p 2 ix).cap = captureWords mem (l.grTop - 128) ∧
      (capture mem e p 2 ix).cap2 = captureWords mem l.stack := by
  obtain ⟨w, hoffs, hgr, -⟩ := hat.offs
  have hstack : (probeReadVaList mem p)[0] = l.stack :=
    probeReadVaList_of_words hat.readable (by decide) (by simpa using hat.stack)
  have htop : (probeReadVaList mem p)[1] = l.grTop :=
    probeReadVaList_of_words hat.readable (by decide) (by simpa using hat.grTop)
  have hword : (probeReadVaList mem p)[3] = w :=
    probeReadVaList_of_words hat.readable (by decide) (by simpa using hoffs)
  rw [← hstack, ← htop, ← hgr, ← hword]
  exact ⟨rfl, rfl, rfl, rfl, rfl⟩

omit hat in
/-- The word in the captured windows. -/
theorem generalWord_captured (hregs : WholeRegisters l.grOffs) {e : Evt}
    (hcap : e.cap = captureWords mem (l.grTop - 128)) (hcap2 : e.cap2 = captureWords mem l.stack)
    (n : Nat) : generalWord e (left 8 l.grOffs) n = capturedWord mem l n := by
  unfold generalWord capturedWord
  by_cases hroom : n < left 8 l.grOffs
  · rw [if_pos hroom, if_pos hroom, hcap]
    rcases hregs with hnone | ⟨G, hG, hoffs⟩
    · rw [left_of_nonneg (by decide) hnone] at hroom
      exact absurd hroom (Nat.not_lt_zero n)
    · rw [hoffs, left_wholeRegisters hG] at hroom
      have hall : ∀ G ≤ 8, (Int32.ofInt (-(8 * (G : Nat)))).toInt64.toUInt64 =
          (16 - G).toUInt64 * 8 - 128 := by
        decide
      have hlt : 16 - G + n < ncapWords := by
        unfold ncapWords
        omega
      have hsum : (16 - G + n).toUInt64 = (16 - G).toUInt64 + n.toUInt64 := UInt64.ofNat_add _ _
      rw [hoffs, left_wholeRegisters hG, windowWord_of_lt _ hlt, captureWords_getElem _ _ hlt]
      congr 1
      simp only [wordFrom]
      rw [hoffs, hall G hG, hsum]
      grind
  · rw [if_neg hroom, if_neg hroom, hcap2]
    by_cases hwindow : n - left 8 l.grOffs < ncapWords
    · rw [if_pos hwindow, windowWord_of_lt _ hwindow, captureWords_getElem _ _ hwindow]
      congr 1
      simp only [wordFrom]
      grind
    · rw [if_neg hwindow]
      have hout : ¬ (0 ≤ ((n - left 8 l.grOffs : Nat) : Int) ∧
          ((n - left 8 l.grOffs : Nat) : Int) < 16) := by
        unfold ncapWords at hwindow
        omega
      rw [windowWord, dif_neg hout]

/-- What `decodeV` shows for a general parameter. -/
theorem decodeV_captured (hregs : WholeRegisters l.grOffs)
    (htop : 0 < left 8 l.grOffs → l.grTop ≠ 0) (c : Caches) (mr : Option UserMemory)
    {params : List ParamType} {i : Nat} {t : ParamType} (ht : params[i]? = some t)
    (hgeneral : t.isFp = false)
    (hsmall : before false (params.map ParamType.isFp) i < 2 ^ 32) :
    (decodeV (capture mem e p 2 ix) (params.map ParamType.desc) c mr)[i]? =
      some
        (fmtJV t.desc (capturedWord mem l (before false (params.map ParamType.isFp) i)) c mr) := by
  obtain ⟨hvstk, hvgr, hvgoff, hcap, hcap2⟩ := capture_vaList hat e ix
  generalize capture mem e p 2 ix = e' at *
  have hstart : e'.vstk = stackCursor e' (left 8 l.grOffs) 0 := by simp [stackCursor]
  have hcursor : decodeV e' (params.map ParamType.desc) c mr =
      decodeVFrom e' c mr (params.map ParamType.desc) (grCursor (left 8 l.grOffs) 0)
        (stackCursor e' (left 8 l.grOffs) 0) := by
    rw [decodeV, hvgoff, ← hstart]
    rcases hregs with hnone | ⟨G, hG, hoffs⟩
    · rw [left_of_nonneg (by decide) hnone, decodeVFrom_nonneg]
      · rfl
      · rw [Int64.le_iff_toInt_le, Int32.toInt_toInt64]
        exact Int32.le_iff_toInt_le.mp hnone
    · rw [hoffs, left_wholeRegisters hG]
      have hall : ∀ G ≤ 8, (Int32.ofInt (-(8 * (G : Nat)))).toInt64 = grCursor G 0 := by decide
      rw [hall G hG]
  rw [hcursor, decodeVFrom_general e' c mr params hregs.left_le _ 0 ht hgeneral (by omega),
    Nat.zero_add, generalWord_captured hregs hcap hcap2]
  rw [hvgr]
  exact htop

end Captured

end JniProbe
