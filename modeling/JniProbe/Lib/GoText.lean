import Mathlib.Algebra.Ring.Int.Defs
import Mathlib.Algebra.Ring.Nat
import Mathlib.Data.List.Infix

/-!
Go strings are byte strings. This module has the handful of functions of the
`strings` and `bytes` packages that text-handling programs rest on, over
lists of bytes, with the characterisation each of them is used through.
-/

namespace GoText

abbrev Bytes := List UInt8

/-- The bytes of a source literal. -/
def str (s : String) : Bytes := s.toByteArray.data.toList

def hasPrefix (s pre : Bytes) : Bool := pre.isPrefixOf s

def hasSuffix (s suf : Bytes) : Bool := suf.isSuffixOf s

def contains (s sub : Bytes) : Bool := s.tails.any (fun t => sub.isPrefixOf t)

def indexByte (s : Bytes) (c : UInt8) : Option Nat := s.findIdx? (· == c)

def lastIndexByte (s : Bytes) (c : UInt8) : Option Nat :=
  (indexByte s.reverse c).map (fun i => s.length - 1 - i)

def replaceByte (s : Bytes) (old new : UInt8) : Bytes :=
  s.map (fun b => if b = old then new else b)

def join (parts : List Bytes) (sep : Bytes) : Bytes := sep.intercalate parts

theorem hasPrefix_iff (s pre : Bytes) : hasPrefix s pre = true ↔ pre <+: s := by
  simp [hasPrefix]

theorem contains_iff (s sub : Bytes) : contains s sub = true ↔ sub <:+: s := by
  simp only [contains, List.any_eq_true, List.mem_tails, List.isPrefixOf_iff_prefix]
  constructor
  · rintro ⟨t, hsuffix, hwithin⟩
    exact hwithin.isInfix.trans hsuffix.isInfix
  · rintro ⟨before, after, rfl⟩
    exact ⟨sub ++ after, ⟨before, by simp⟩, List.prefix_append _ _⟩

/-- The first index of a byte that the part before it does not contain. -/
theorem indexByte_append (before after : Bytes) (c : UInt8) (h : c ∉ before) :
    indexByte (before ++ c :: after) c = some before.length := by
  induction before with
  | nil => simp [indexByte, List.findIdx?_cons]
  | cons b rest ih =>
      obtain ⟨hb, hrest⟩ : c ≠ b ∧ c ∉ rest := by simpa using h
      have hne : (b == c) = false := by simpa using Ne.symm hb
      simpa [indexByte, List.findIdx?_cons, hne] using ih hrest

theorem indexByte_eq_none (s : Bytes) (c : UInt8) (h : c ∉ s) : indexByte s c = none := by
  simp only [indexByte, List.findIdx?_eq_none_iff, beq_eq_false_iff_ne]
  intro b hb heq
  exact h (heq ▸ hb)

/-- The last index of a byte that the part behind it does not contain. -/
theorem lastIndexByte_append (before after : Bytes) (c : UInt8) (h : c ∉ after) :
    lastIndexByte (before ++ c :: after) c = some before.length := by
  have hrev : (before ++ c :: after).reverse = after.reverse ++ c :: before.reverse := by simp
  have hmem : c ∉ after.reverse := by simpa using h
  simp only [lastIndexByte, hrev, indexByte_append _ _ c hmem, Option.map_some,
    List.length_reverse, List.length_append, List.length_cons, Option.some.injEq]
  omega

/-- Two strings are split alike at the last occurrence of a byte. -/
theorem append_byte_inj {before before' after after' : Bytes} {c : UInt8} (h : c ∉ after)
    (h' : c ∉ after') (heq : before ++ c :: after = before' ++ c :: after') :
    before = before' ∧ after = after' := by
  have hindex := congrArg (lastIndexByte · c) heq
  simp only [lastIndexByte_append _ _ c h, lastIndexByte_append _ _ c h', Option.some.injEq]
    at hindex
  obtain ⟨hbefore, hafter⟩ := List.append_inj heq hindex
  exact ⟨hbefore, (List.cons.inj hafter).2⟩

/-- A byte that occurs has a last occurrence. -/
theorem exists_last_of_mem {s : Bytes} {c : UInt8} (h : c ∈ s) :
    ∃ before after, s = before ++ c :: after ∧ c ∉ after := by
  obtain ⟨before, after, hsplit, hfirst⟩ := List.eq_append_cons_of_mem (List.mem_reverse.mpr h)
  refine ⟨after.reverse, before.reverse, ?_, by simpa using hfirst⟩
  rw [← List.reverse_reverse s, hsplit, List.reverse_append, List.reverse_cons, List.append_assoc]
  rfl

end GoText
