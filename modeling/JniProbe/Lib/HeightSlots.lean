import Mathlib.Algebra.Ring.Int.Defs
import Mathlib.Algebra.Ring.Nat
import Mathlib.Logic.Function.Basic
import Mathlib.Data.List.Basic

/-!
A stack stored in a map: the item at height `d` lies under the key `d`, a
height counted in 32 unsigned bits and used as a key in 32 signed bits. Only
heights below `2^31` are non-negative keys, so a higher item is not stored.
-/

namespace HeightSlots

variable {α : Type*}

/-! ### Depths as 32-bit numbers -/

theorem toInt32_toInt (d : UInt32) :
    d.toInt32.toInt = if d.toNat < 2 ^ 31 then (d.toNat : Int) else d.toNat - 2 ^ 32 := by
  have h := BitVec.toInt_eq_toNat_cond d.toBitVec
  have hcast : d.toInt32.toInt = d.toBitVec.toInt := rfl
  have hnat : d.toBitVec.toNat = d.toNat := rfl
  rw [hcast, h, hnat]
  split <;> split <;> omega

theorem nonneg_toInt32_iff (d : UInt32) : 0 ≤ d.toInt32 ↔ d.toNat < 2 ^ 31 := by
  have hlt := d.toNat_lt
  rw [Int32.le_iff_toInt_le, toInt32_toInt]
  simp only [Int32.toInt_zero]
  split <;> omega

theorem toNatClampNeg_toInt32 (d : UInt32) (h : d.toNat < 2 ^ 31) :
    d.toInt32.toNatClampNeg = d.toNat := by
  rw [← Int32.toNat_toInt, toInt32_toInt, if_pos h]
  simp

theorem toInt32_injective : Function.Injective UInt32.toInt32 := by
  intro a b h
  simpa using congrArg Int32.toUInt32 h

theorem toNatClampNeg_lt (d : Int32) : d.toNatClampNeg < 2 ^ 31 := by
  have hlt := Int32.toInt_lt d
  rw [← Int32.toNat_toInt]
  omega

theorem toNatClampNeg_inj {d d' : Int32} (hd : 0 ≤ d) (hd' : 0 ≤ d')
    (h : d.toNatClampNeg = d'.toNatClampNeg) : d = d' := by
  rw [Int32.le_iff_toInt_le, Int32.toInt_zero] at hd hd'
  rw [← Int32.toNat_toInt, ← Int32.toNat_toInt] at h
  exact Int32.toInt_inj.mp (by omega)

/-! ### A stack laid out under its heights -/

/-- The slots of a stack whose items are `items`, bottom first, when `w` says
that they are kept at all. A height from `2^31` on has no slot. -/
def slots (w : Bool) (items : List α) (d : Int32) : Option α :=
  if w && 0 ≤ d then items[d.toNatClampNeg]? else none

theorem slots_nil (w : Bool) (d : Int32) : slots w ([] : List α) d = none := by
  simp [slots]

theorem slots_of_lt (w : Bool) (items : List α) (d : UInt32) (h : d.toNat < 2 ^ 31) :
    slots w items d.toInt32 = if w then items[d.toNat]? else none := by
  simp only [slots, nonneg_toInt32_iff, h, decide_true, Bool.and_true, toNatClampNeg_toInt32 d h]

/-- A push writes the slot of the old height, if there is one. -/
theorem slots_push (w : Bool) (items : List α) (item : α) (d : UInt32)
    (hd : d.toNat = items.length) :
    slots w (items ++ [item]) = if w && decide (d.toNat < 2 ^ 31) then
      Function.update (slots w items) d.toInt32 (some item) else slots w items := by
  funext d'
  by_cases hw : w = true
  · by_cases hlt : d.toNat < 2 ^ 31
    · simp only [hw, hlt, decide_true, Bool.and_self, if_true]
      by_cases heq : d' = d.toInt32
      · subst heq
        simp [slots_of_lt _ _ d hlt, hd]
      · rw [Function.update_of_ne heq]
        unfold slots
        by_cases hpos : 0 ≤ d'
        · have hne : d'.toNatClampNeg ≠ items.length := by
            intro h
            apply heq
            apply toNatClampNeg_inj hpos ((nonneg_toInt32_iff d).mpr hlt)
            rw [h, toNatClampNeg_toInt32 d hlt, hd]
          simp only [hpos, decide_true, Bool.and_true, if_true]
          by_cases hin : d'.toNatClampNeg < items.length
          · rw [List.getElem?_append_left hin]
          · rw [List.getElem?_eq_none (by simp; omega), List.getElem?_eq_none (by omega)]
        · simp [hpos]
    · have hbig := toNatClampNeg_lt d'
      simp only [hlt, decide_false, Bool.and_false, Bool.false_eq_true, if_false, slots]
      rw [List.getElem?_append_left (by omega)]
  · simp [slots, hw]

/-- A pop clears the slot of the new height, if there is one. -/
theorem slots_pop (w : Bool) (items : List α) (item : α) (d : UInt32)
    (hd : d.toNat = items.length) :
    slots w items = if w && decide (d.toNat < 2 ^ 31) then
      Function.update (slots w (items ++ [item])) d.toInt32 none
      else slots w (items ++ [item]) := by
  rw [slots_push w items item d hd]
  split
  · rename_i h
    rw [Function.update_idem, eq_comm, Function.update_eq_self_iff]
    simp only [Bool.and_eq_true, decide_eq_true_eq] at h
    simp [slots_of_lt _ _ d h.2, hd]
  · rfl

/-! ### Stacks of several owners in one map -/

section Rows

variable {κ : Type*} [DecidableEq κ] {src : κ × Int32 → Option α} {k : κ}

/-- A write under a key of one owner is a write to the stack of this owner. -/
theorem update_row_self {row : Int32 → Option α} (h : ∀ i, src (k, i) = row i) (d : Int32)
    (v : Option α) (i : Int32) :
    Function.update src (k, d) v (k, i) = Function.update row d v i := by
  by_cases hi : i = d
  · subst hi
    rw [Function.update_self, Function.update_self]
  · have hkey : (k, i) ≠ (k, d) := by simpa using hi
    rw [Function.update_of_ne hi, Function.update_of_ne hkey, h]

/-- It leaves the stacks of the others alone. -/
theorem update_row_ne {k' : κ} (hk : k' ≠ k) (d : Int32) (v : Option α) (i : Int32) :
    Function.update src (k, d) v (k', i) = src (k', i) := by
  apply Function.update_of_ne
  intro heq
  exact hk (congrArg Prod.fst heq)

end Rows

section Owners

variable {ι κ : Type*} [DecidableEq κ] {key : ι → κ} {w : ι → Bool} {stack stack' : ι → List α}
  {src : κ × Int32 → Option α} {t₀ t : ι} {d : UInt32}

/-- A write that leaves the map with the stack of its owner leaves it with the
stacks of all owners. -/
theorem slots_written (hkey : Function.Injective key) {v : Option α}
    (hself : slots (w t₀) (stack' t₀) = if w t₀ && decide (d.toNat < 2 ^ 31) then
      Function.update (slots (w t₀) (stack t₀)) d.toInt32 v else slots (w t₀) (stack t₀))
    (hother : ∀ {t}, t ≠ t₀ → stack' t = stack t)
    (hsrc : ∀ i, src (key t, i) = slots (w t) (stack t) i) (i : Int32) :
    (if w t₀ && decide (d.toNat < 2 ^ 31) then Function.update src (key t₀, d.toInt32) v
      else src) (key t, i) = slots (w t) (stack' t) i := by
  by_cases ht : t = t₀
  · subst ht
    rw [hself]
    split
    · exact update_row_self hsrc _ _ i
    · exact hsrc i
  · rw [hother ht]
    split
    · rw [update_row_ne (hkey.ne ht)]
      exact hsrc i
    · exact hsrc i

/-- A push of one owner is written under the old height. -/
theorem slots_pushed (hkey : Function.Injective key) {item : α} (hd : d.toNat = (stack t₀).length)
    (hself : stack' t₀ = stack t₀ ++ [item]) (hother : ∀ {t}, t ≠ t₀ → stack' t = stack t)
    (hsrc : ∀ i, src (key t, i) = slots (w t) (stack t) i) (i : Int32) :
    (if w t₀ && decide (d.toNat < 2 ^ 31) then Function.update src (key t₀, d.toInt32) (some item)
      else src) (key t, i) = slots (w t) (stack' t) i := by
  apply slots_written hkey _ hother hsrc
  rw [hself]
  exact slots_push _ _ _ _ hd

/-- A pop of one owner clears the slot of the new height. -/
theorem slots_popped (hkey : Function.Injective key) {item : α} (hd : d.toNat = (stack' t₀).length)
    (hself : stack t₀ = stack' t₀ ++ [item]) (hother : ∀ {t}, t ≠ t₀ → stack' t = stack t)
    (hsrc : ∀ i, src (key t, i) = slots (w t) (stack t) i) (i : Int32) :
    (if w t₀ && decide (d.toNat < 2 ^ 31) then Function.update src (key t₀, d.toInt32) none
      else src) (key t, i) = slots (w t) (stack' t) i := by
  apply slots_written hkey _ hother hsrc
  rw [hself]
  exact slots_pop _ _ _ _ hd

end Owners

end HeightSlots
