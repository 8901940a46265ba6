import JniProbe.Loader.Decode
import Mathlib.Data.List.TakeWhile

/-!
What `cstr` returns. The end of a string is looked for in the bytes that were
read, but the text is taken from the whole buffer, so a read that is cut short
before the end of the string leaves the zeroes of the buffer in the text.
-/

namespace JniProbe

open GoText

/-- The text that some bytes hold: those before the first NUL, or all of them. -/
def cstringOf (run : Bytes) : Bytes := run.takeWhile (· ≠ 0)

theorem cstringOf_append {before : Bytes} (h : 0 ∉ before) (after : Bytes) :
    cstringOf (before ++ 0 :: after) = before := by
  have hall : ∀ b ∈ before, decide (b ≠ 0) = true := by
    intro b hb
    simpa using ne_of_mem_of_not_mem hb h
  rw [cstringOf, List.takeWhile_append_of_pos hall, List.takeWhile_cons_of_neg (by simp),
    List.append_nil]

theorem cstringOf_eq_self {run : Bytes} (h : 0 ∉ run) : cstringOf run = run := by
  rw [cstringOf, List.takeWhile_eq_self_iff]
  intro b hb
  simpa using ne_of_mem_of_not_mem hb h

theorem zero_notMem_cstringOf (run : Bytes) : 0 ∉ cstringOf run := by
  intro hmem
  have hne := List.mem_takeWhile_imp hmem
  simp at hne

/-- `cstr` is the text of the bytes that the read obtains; so it has no NUL and
no byte that was not read. -/
structure ReadsCString (mem : UserMemory) (a : UInt64) : Prop where
  text : cstr (some mem) a = cstringOf (readAt mem a 256)
  nonzero : 0 ∉ cstr (some mem) a
  fromTarget : cstr (some mem) a <+: readAt mem a 256
  nothing : readAt mem a 256 = [] → cstr (some mem) a = []

theorem ReadsCString.of_text {mem : UserMemory} {a : UInt64}
    (h : cstr (some mem) a = cstringOf (readAt mem a 256)) : ReadsCString mem a where
  text := h
  nonzero := by
    rw [h]
    exact zero_notMem_cstringOf _
  fromTarget := by
    rw [h]
    exact List.takeWhile_prefix _
  nothing hnothing := by
    rw [h, hnothing]
    rfl

/-- Nothing is read, or the buffer is filled, or the end of the string is read. -/
def WholeRead (run : Bytes) : Prop := run = [] ∨ run.length = 256 ∨ 0 ∈ run

theorem cstr_of_mem {mem : UserMemory} {a : UInt64} (ha : a ≠ 0)
    (hmem : 0 ∈ readAt mem a 256) : cstr (some mem) a = cstringOf (readAt mem a 256) := by
  obtain ⟨before, after, hrun, hbefore⟩ := List.eq_append_cons_of_mem hmem
  have hne : before ++ 0 :: after ≠ [] := by simp
  simp only [cstr, ha, if_false, hrun, hne, indexByte_append before after 0 hbefore,
    List.take_left', cstringOf_append hbefore]

/-- Without an end the text is the whole buffer. -/
theorem cstr_of_notMem {mem : UserMemory} {a : UInt64} (ha : a ≠ 0)
    (hne : readAt mem a 256 ≠ []) (hnone : 0 ∉ readAt mem a 256) :
    cstr (some mem) a =
      readAt mem a 256 ++ List.replicate (256 - (readAt mem a 256).length) 0 := by
  simp only [cstr, ha, if_false, hne, indexByte_eq_none _ _ hnone]

/-- `cstr` returns the text that is at an address exactly if the read of it is
whole; at `NULL`, which it does not read, exactly if no text is there. -/
theorem cstr_reads_iff (mem : UserMemory) (a : UInt64) : ReadsCString mem a ↔
    if a = 0 then cstringOf (readAt mem a 256) = [] else WholeRead (readAt mem a 256) := by
  by_cases ha : a = 0
  · have hnull : cstr (some mem) a = [] := by simp [cstr, ha]
    rw [if_pos ha]
    constructor
    · intro h
      rw [← h.text, hnull]
    · intro h
      apply ReadsCString.of_text
      rw [hnull, h]
  · rw [if_neg ha]
    have hlen : (readAt mem a 256).length ≤ 256 := by
      unfold readAt
      split
      · exact UserMemory.length_readRun_le mem a 256
      · exact Nat.zero_le 256
    by_cases hmem : 0 ∈ readAt mem a 256
    · exact iff_of_true (.of_text (cstr_of_mem ha hmem)) (Or.inr (Or.inr hmem))
    · by_cases hne : readAt mem a 256 = []
      · have hnothing : cstr (some mem) a = [] := by simp [cstr, ha, hne]
        refine iff_of_true (.of_text ?_) (Or.inl hne)
        rw [hnothing, hne]
        rfl
      · have hbuffer := cstr_of_notMem ha hne hmem
        constructor
        · intro h
          have hfull := h.text
          rw [hbuffer, cstringOf_eq_self hmem, List.append_right_eq_self,
            List.replicate_eq_nil_iff] at hfull
          exact Or.inr (Or.inl (by omega))
        · intro h
          have hfull : (readAt mem a 256).length = 256 := by
            rcases h with hnothing | hfull | hend
            · exact absurd hnothing hne
            · exact hfull
            · exact absurd hend hmem
          apply ReadsCString.of_text
          rw [hbuffer, cstringOf_eq_self hmem, hfull, Nat.sub_self, List.replicate_zero,
            List.append_nil]

namespace Scenario

/-- Three bytes at the end of a page, and nothing mapped behind them. -/
def pageEnd : UserMemory := fun a => if 0x1ffd ≤ a ∧ a < 0x2000 then some 97 else none

end Scenario

open Scenario in
/-- A string that goes on behind the page is returned with 253 zeroes. -/
theorem short_read_padded : readAt pageEnd 0x1ffd 256 = str "aaa" ∧
    cstr (some pageEnd) 0x1ffd = str "aaa" ++ List.replicate 253 0 ∧
    ¬ ReadsCString pageEnd 0x1ffd := by
  have hread : readAt pageEnd 0x1ffd 256 = str "aaa" := by decide +kernel
  have htext : cstr (some pageEnd) 0x1ffd = str "aaa" ++ List.replicate 253 0 := by
    decide +kernel
  refine ⟨hread, htext, ?_⟩
  intro h
  have hnone := h.nonzero
  rw [htext] at hnone
  exact hnone (by decide)

end JniProbe
