import JniProbe.Lib.Aapcs64
import JniProbe.Lib.UserMemory

/-!
The `va_list` of AAPCS64 and what `va_arg` fetches from it. A fetch takes the
next register of its kind from the save area, as long as the offset of that
area is negative, and else the next stack slot; successive fetches go through
the places of the calling convention for the registers that are left.
-/

namespace Aapcs64

structure VaList where
  stack : UInt64
  grTop : UInt64
  vrTop : UInt64
  grOffs : Int32
  vrOffs : Int32

/-- The word a fetch returns is at this address. -/
structure Fetched where
  address : UInt64
  onStack : Bool
  deriving DecidableEq

namespace VaList

def withGr (l : VaList) (offs : Int32) : VaList := { l with grOffs := offs }

def withVr (l : VaList) (offs : Int32) : VaList := { l with vrOffs := offs }

def fromStack (l : VaList) : Fetched × VaList := (⟨l.stack, true⟩, { l with stack := l.stack + 8 })

/-- The next word of a save area, `size` bytes behind which the next one begins. -/
def fromArea (l : VaList) (size : Nat) (top : UInt64) (offs : Int32) (advance : Int32 → VaList) :
    Fetched × VaList :=
  if 0 ≤ offs then l.fromStack
  else
    let next := advance (offs + Int32.ofNat size)
    if 0 < offs + Int32.ofNat size then next.fromStack
    else (⟨top + offs.toInt64.toUInt64, false⟩, next)

/-- `va_arg` of a type of one general (`false`) or floating-point (`true`) word. -/
def fetch (l : VaList) : Bool → Fetched × VaList
  | false => l.fromArea 8 l.grTop l.grOffs l.withGr
  | true => l.fromArea 16 l.vrTop l.vrOffs l.withVr

def fetches : VaList → List Bool → List Fetched
  | _, [] => []
  | l, bank :: rest => (l.fetch bank).1 :: (l.fetch bank).2.fetches rest

/-- So many registers of this size are left in a save area. -/
def left (size : Nat) (offs : Int32) : Nat := (-offs.toInt / size).toNat

/-- The words of the structure in memory. -/
structure At (mem : UserMemory) (p : UInt64) (l : VaList) : Prop where
  readable : (mem.readRun p 32).length = 32
  stack : mem.word p 8 = some l.stack.toNat
  grTop : mem.word (p + 8) 8 = some l.grTop.toNat
  vrTop : mem.word (p + 16) 8 = some l.vrTop.toNat
  offs : ∃ w : UInt64, mem.word (p + 24) 8 = some w.toNat ∧ w.toUInt32.toInt32 = l.grOffs ∧
    (w >>> 32).toUInt32.toInt32 = l.vrOffs

/-! ### The registers that are left -/

section Offsets

variable {offs : Int32} {size : Nat}

theorem toInt_advance (hneg : offs < 0) (hsize : size ≤ 16) :
    (offs + Int32.ofNat size).toInt = offs.toInt + size := by
  have hlow := offs.le_toInt
  have hnegative := Int32.lt_iff_toInt_lt.mp hneg
  have hword : (Int32.ofNat size).toInt = size := Int32.toInt_ofNat_of_lt (by omega)
  rw [Int32.toInt_add, hword]
  apply Int.bmod_eq_of_le
  · omega
  · change offs.toInt < 0 at hnegative
    omega

theorem address_advance (hneg : offs < 0) (hsize : size ≤ 16) :
    (offs + Int32.ofNat size).toInt64.toUInt64 = offs.toInt64.toUInt64 + size.toUInt64 := by
  have hword : (offs + Int32.ofNat size).toInt64 = offs.toInt64 + Int64.ofNat size := by
    apply Int64.toInt_inj.mp
    have hlow := offs.le_toInt
    have hhigh := offs.toInt_lt
    rw [Int64.toInt_add, Int32.toInt_toInt64, Int32.toInt_toInt64, toInt_advance hneg hsize,
      Int64.toInt_ofNat_of_lt (by omega)]
    exact (Int.bmod_eq_of_le (by omega) (by omega)).symm
  rw [hword]
  rfl

variable (hpos : 0 < size)
include hpos

theorem left_of_nonneg (h : 0 ≤ offs) : left size offs = 0 := by
  have hnonneg : 0 ≤ offs.toInt := Int32.le_iff_toInt_le.mp h
  have hquotient : -offs.toInt / size ≤ 0 :=
    Int.ediv_nonpos_of_nonpos_of_neg (by omega) (by omega)
  unfold left
  omega

theorem left_advance (hsize : size ≤ 16) (hneg : offs < 0) :
    left size offs = if 0 < offs + Int32.ofNat size then 0
      else left size (offs + Int32.ofNat size) + 1 := by
  have hadvance := toInt_advance hneg hsize
  have hnegative : offs.toInt < 0 := Int32.lt_iff_toInt_lt.mp hneg
  split
  · rename_i hover
    have hpast : 0 < offs.toInt + size := by
      rw [← hadvance]
      exact Int32.lt_iff_toInt_lt.mp hover
    have hquotient : -offs.toInt / size = 0 := Int.ediv_eq_zero_of_lt (by omega) (by omega)
    rw [left, hquotient]
    rfl
  · rename_i hfits
    have hwithin : offs.toInt + size ≤ 0 := by
      rw [← hadvance]
      exact Int.not_lt.mp (fun h => hfits (Int32.lt_iff_toInt_lt.mpr h))
    have hquotient : -(offs.toInt + size) / size = -offs.toInt / size + -1 := by
      rw [← Int.add_mul_ediv_right _ _ (show (size : Int) ≠ 0 by omega)]
      congr 1
      omega
    have hnonneg : 0 ≤ -(offs.toInt + size) / size := Int.ediv_nonneg (by omega) (by omega)
    rw [left, left, hadvance]
    omega

/-- A fetch finds a register left and takes the word below the top at the
offset, or it takes the next stack slot and leaves no register. -/
theorem fromArea_cases (l : VaList) (top : UInt64) {advance : Int32 → VaList}
    (hself : advance offs = l) (hsize : size ≤ 16) :
    (∃ o, left size offs = 0 ∧ left size o = 0 ∧
      l.fromArea size top offs advance = (advance o).fromStack) ∨
    ∃ o, left size offs = left size o + 1 ∧
      o.toInt64.toUInt64 = offs.toInt64.toUInt64 + size.toUInt64 ∧
      l.fromArea size top offs advance = (⟨top + offs.toInt64.toUInt64, false⟩, advance o) := by
  unfold fromArea
  by_cases hoffs : 0 ≤ offs
  · rw [if_pos hoffs]
    left
    refine ⟨offs, left_of_nonneg hpos hoffs, left_of_nonneg hpos hoffs, ?_⟩
    rw [hself]
  · have hneg : offs < 0 := Int32.not_le.mp hoffs
    have hleft := left_advance hpos hsize hneg
    rw [if_neg hoffs]
    dsimp only
    by_cases hover : 0 < offs + Int32.ofNat size
    · rw [if_pos hover] at hleft ⊢
      left
      exact ⟨_, hleft, left_of_nonneg hpos (Int32.le_of_lt hover), rfl⟩
    · rw [if_neg hover] at hleft ⊢
      right
      exact ⟨_, hleft, address_advance hneg hsize, rfl⟩

end Offsets

theorem fetch_general (l : VaList) :
    (∃ o, left 8 l.grOffs = 0 ∧ left 8 o = 0 ∧ l.fetch false = (l.withGr o).fromStack) ∨
    ∃ o, left 8 l.grOffs = left 8 o + 1 ∧
      o.toInt64.toUInt64 = l.grOffs.toInt64.toUInt64 + 8 ∧
      l.fetch false = (⟨l.grTop + l.grOffs.toInt64.toUInt64, false⟩, l.withGr o) :=
  fromArea_cases (by decide) l l.grTop rfl (by decide)

theorem fetch_vector (l : VaList) :
    (∃ o, left 16 l.vrOffs = 0 ∧ left 16 o = 0 ∧ l.fetch true = (l.withVr o).fromStack) ∨
    ∃ o, left 16 l.vrOffs = left 16 o + 1 ∧
      o.toInt64.toUInt64 = l.vrOffs.toInt64.toUInt64 + 16 ∧
      l.fetch true = (⟨l.vrTop + l.vrOffs.toInt64.toUInt64, false⟩, l.withVr o) :=
  fromArea_cases (by decide) l l.vrTop rfl (by decide)

/-! ### The states of a list -/

/-- Eight general registers are left at most, all of them saved whole, or none. -/
def WholeRegisters (offs : Int32) : Prop :=
  0 ≤ offs ∨ ∃ G ≤ 8, offs = Int32.ofInt (-(8 * (G : Nat)))

theorem left_wholeRegisters {G : Nat} (hG : G ≤ 8) :
    left 8 (Int32.ofInt (-(8 * (G : Nat)))) = G := by
  have hall : ∀ G ≤ 8, left 8 (Int32.ofInt (-(8 * (G : Nat)))) = G := by decide
  exact hall G hG

theorem WholeRegisters.left_le {offs : Int32} (h : WholeRegisters offs) : left 8 offs ≤ 8 := by
  rcases h with hnone | ⟨G, hG, rfl⟩
  · rw [left_of_nonneg (by decide) hnone]
    exact Nat.zero_le 8
  · rw [left_wholeRegisters hG]
    exact hG

/-- The offsets that `va_start` leaves behind the named arguments, and those that
fetches of any type lead to: a general one passes over an odd register for the
sake of alignment and takes two registers at most, a vector one takes four. -/
inductive Produced : Int32 → Int32 → Prop
  | start (g v : Nat) (hg : g ≤ 8) (hv : v ≤ 8) :
      Produced (Int32.ofInt (-(8 * (g : Nat)))) (Int32.ofInt (-(16 * (v : Nat))))
  | general {gr vr : Int32} (pad words : Nat) (hpad : pad ≤ 1) (hwords : words ≤ 2)
      (h : Produced gr vr) (hleft : gr < 0) : Produced (gr + Int32.ofNat (8 * (pad + words))) vr
  | vector {gr vr : Int32} (words : Nat) (hwords : words ≤ 4) (h : Produced gr vr)
      (hleft : vr < 0) : Produced gr (vr + Int32.ofNat (16 * words))

theorem Produced.wholeRegisters {gr vr : Int32} (h : Produced gr vr) : WholeRegisters gr := by
  induction h with
  | start g v hg hv => exact Or.inr ⟨g, hg, rfl⟩
  | general pad words hpad hwords _ hleft ih =>
      rcases ih with hnone | ⟨G, hG, rfl⟩
      · exact absurd hleft (Int32.not_lt.mpr hnone)
      · have hall : ∀ G ≤ 8, ∀ n ≤ 3, if n ≤ G then
            Int32.ofInt (-(8 * (G : Nat))) + Int32.ofNat (8 * n) =
              Int32.ofInt (-(8 * (G - n : Nat)))
            else 0 ≤ Int32.ofInt (-(8 * (G : Nat))) + Int32.ofNat (8 * n) := by
          decide
        have hstep := hall G hG (pad + words) (by omega)
        split at hstep
        · exact Or.inr ⟨G - (pad + words), by omega, hstep⟩
        · exact Or.inl hstep
  | vector _ _ _ _ ih => exact ih

/-! ### Successive fetches -/

/-- The word at a place, once `g` and `v` registers and `s` stack slots of the
places were used. -/
def wordFrom (l : VaList) (g v s : Nat) : Place → Fetched
  | .gr k => ⟨l.grTop + l.grOffs.toInt64.toUInt64 + 8 * (k.toUInt64 - g.toUInt64), false⟩
  | .vr k => ⟨l.vrTop + l.vrOffs.toInt64.toUInt64 + 16 * (k.toUInt64 - v.toUInt64), false⟩
  | .stack k => ⟨l.stack + 8 * (k.toUInt64 - s.toUInt64), true⟩

section Next

variable (l : VaList) (g v s : Nat) {o : Int32}

/-- After a fetch from the general save area the words of the later places are
counted from the next register. -/
theorem wordFrom_withGr (haddr : o.toInt64.toUInt64 = l.grOffs.toInt64.toUInt64 + 8) (p : Place) :
    (l.withGr o).wordFrom (g + 1) v s p = l.wordFrom g v s p := by
  have hnext : (g + 1).toUInt64 = g.toUInt64 + 1 := UInt64.ofNat_add g 1
  cases p with
  | gr k =>
      simp only [wordFrom, withGr, hnext, haddr]
      congr 1
      grind
  | vr k => rfl
  | stack k => rfl

theorem wordFrom_withVr (haddr : o.toInt64.toUInt64 = l.vrOffs.toInt64.toUInt64 + 16) (p : Place) :
    (l.withVr o).wordFrom g (v + 1) s p = l.wordFrom g v s p := by
  have hnext : (v + 1).toUInt64 = v.toUInt64 + 1 := UInt64.ofNat_add v 1
  cases p with
  | gr k => rfl
  | vr k =>
      simp only [wordFrom, withVr, hnext, haddr]
      congr 1
      grind
  | stack k => rfl

/-- After a fetch of a general word from the stack the words of the later places
are counted from the next slot; general registers are not among them. -/
theorem wordFrom_fromStack_general {p : Place} (hp : ∀ k, p ≠ .gr k) :
    (l.withGr o).fromStack.2.wordFrom g v (s + 1) p = l.wordFrom g v s p := by
  have hnext : (s + 1).toUInt64 = s.toUInt64 + 1 := UInt64.ofNat_add s 1
  cases p with
  | gr k => exact absurd rfl (hp k)
  | vr k => rfl
  | stack k =>
      simp only [wordFrom, fromStack, withGr, hnext]
      congr 1
      grind

theorem wordFrom_fromStack_vector {p : Place} (hp : ∀ k, p ≠ .vr k) :
    (l.withVr o).fromStack.2.wordFrom g v (s + 1) p = l.wordFrom g v s p := by
  have hnext : (s + 1).toUInt64 = s.toUInt64 + 1 := UInt64.ofNat_add s 1
  cases p with
  | gr k => rfl
  | vr k => exact absurd rfl (hp k)
  | stack k =>
      simp only [wordFrom, fromStack, withVr, hnext]
      congr 1
      grind

end Next

theorem fetches_placeFrom (l : VaList) (g v s : Nat) (banks : List Bool) :
    l.fetches banks = (placeFrom (g + left 8 l.grOffs) (v + left 16 l.vrOffs) g v s banks).map
      (l.wordFrom g v s) := by
  induction banks generalizing l g v s with
  | nil => rfl
  | cons bank rest ih =>
      cases bank with
      | false =>
          rw [fetches, placeFrom]
          rcases l.fetch_general with ⟨o, hnone, hnone', hfetch⟩ | ⟨o, hleft, haddr, hfetch⟩
          · rw [if_neg (by omega), hfetch, List.map_cons]
            congr 1
            · simp [fromStack, withGr, wordFrom]
            · rw [ih _ g v (s + 1)]
              have hregs : g + left 8 ((l.withGr o).fromStack).2.grOffs = g + left 8 l.grOffs :=
                congrArg (g + ·) (hnone'.trans hnone.symm)
              rw [hregs]
              apply List.map_congr_left
              intro p hp
              apply wordFrom_fromStack_general
              rintro k rfl
              have hused : g ≤ k := unused_of_mem_placeFrom _ _ hp
              have hlt := lt_of_gr_mem _ _ hp
              omega
          · rw [if_pos (by omega), hfetch, List.map_cons]
            congr 1
            · simp [wordFrom]
            · rw [ih _ (g + 1) v s]
              have hregs : g + 1 + left 8 (l.withGr o).grOffs = g + left 8 l.grOffs := by
                change g + 1 + left 8 o = _
                omega
              rw [hregs]
              exact List.map_congr_left (fun p _ => l.wordFrom_withGr g v s haddr p)
      | true =>
          rw [fetches, placeFrom]
          rcases l.fetch_vector with ⟨o, hnone, hnone', hfetch⟩ | ⟨o, hleft, haddr, hfetch⟩
          · rw [if_neg (by omega), hfetch, List.map_cons]
            congr 1
            · simp [fromStack, withVr, wordFrom]
            · rw [ih _ g v (s + 1)]
              have hregs : v + left 16 ((l.withVr o).fromStack).2.vrOffs = v + left 16 l.vrOffs :=
                congrArg (v + ·) (hnone'.trans hnone.symm)
              rw [hregs]
              apply List.map_congr_left
              intro p hp
              apply wordFrom_fromStack_vector
              rintro k rfl
              have hused : v ≤ k := unused_of_mem_placeFrom _ _ hp
              have hlt := lt_of_vr_mem _ _ hp
              omega
          · rw [if_pos (by omega), hfetch, List.map_cons]
            congr 1
            · simp [wordFrom]
            · rw [ih _ g (v + 1) s]
              have hregs : v + 1 + left 16 (l.withVr o).vrOffs = v + left 16 l.vrOffs := by
                change v + 1 + left 16 o = _
                omega
              rw [hregs]
              exact List.map_congr_left (fun p _ => l.wordFrom_withVr g v s haddr p)

/-- Successive fetches go through the places for the registers that are left. -/
theorem fetches_eq_place (l : VaList) (banks : List Bool) :
    l.fetches banks =
      (place (left 8 l.grOffs) (left 16 l.vrOffs) banks).map (l.wordFrom 0 0 0) := by
  have hfrom := l.fetches_placeFrom 0 0 0 banks
  rwa [Nat.zero_add, Nat.zero_add] at hfrom

/-- What the fetch for a general argument returns. -/
theorem fetches_general (l : VaList) {banks : List Bool} {i : Nat}
    (h : banks[i]? = some false) : (l.fetches banks)[i]? =
      some (l.wordFrom 0 0 0 (spot (left 8 l.grOffs) (left 16 l.vrOffs) (before false banks i)
        (before true banks i))) := by
  rw [fetches_eq_place, List.getElem?_map, place_general _ _ h, Option.map_some]

/-- A place on the stack is one of those that fetches take from there. -/
theorem stack_lt_fetched (l : VaList) {banks : List Bool} {k : Nat}
    (h : .stack k ∈ place (left 8 l.grOffs) (left 16 l.vrOffs) banks) :
    k < (l.fetches banks).countP (·.onStack) := by
  have hplace : (·.onStack) ∘ l.wordFrom 0 0 0 = Place.onStack := by
    funext p
    cases p with
    | gr k => rfl
    | vr k => rfl
    | stack k => rfl
  have hlt := stack_lt_countP _ _ h
  rw [fetches_eq_place, List.countP_map, hplace]
  rwa [Nat.zero_add] at hlt

end VaList

end Aapcs64
