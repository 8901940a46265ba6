import Mathlib.Data.List.Nodup
import Mathlib.Logic.Function.Basic

/-!
Where AAPCS64 places the arguments of a call, each of them one general or one
floating-point word: general ones in the next general register, floating-point
ones in the next vector register, and what finds no register left in the next
stack slot. `G` and `V` are the numbers of registers left for the arguments.
-/

namespace Aapcs64

inductive Place where
  | gr (k : Nat)
  | vr (k : Nat)
  | stack (k : Nat)
  deriving DecidableEq

/-- The places of arguments, `true` for floating point, after `g` and `v`
registers and `s` stack slots were used. -/
def placeFrom (G V : Nat) : Nat → Nat → Nat → List Bool → List Place
  | _, _, _, [] => []
  | g, v, s, false :: rest =>
    if g < G then .gr g :: placeFrom G V (g + 1) v s rest
    else .stack s :: placeFrom G V g v (s + 1) rest
  | g, v, s, true :: rest =>
    if v < V then .vr v :: placeFrom G V g (v + 1) s rest
    else .stack s :: placeFrom G V g v (s + 1) rest

def place (G V : Nat) (banks : List Bool) : List Place := placeFrom G V 0 0 0 banks

/-- The arguments of one kind before position `i`. -/
def before (kind : Bool) (banks : List Bool) (i : Nat) : Nat := (banks.take i).count kind

theorem before_succ_cons (kind b : Bool) (rest : List Bool) (i : Nat) :
    before kind (b :: rest) (i + 1) = before kind rest i + if b = kind then 1 else 0 := by
  simp [before, List.count_cons]

theorem before_add (banks : List Bool) (i : Nat) (h : i ≤ banks.length) :
    before false banks i + before true banks i = i := by
  induction banks generalizing i with
  | nil =>
      obtain rfl : i = 0 := by simpa using h
      rfl
  | cons b rest ih =>
      cases i with
      | zero => simp [before]
      | succ i =>
          have hrest := ih i (by simpa using h)
          rw [before_succ_cons, before_succ_cons]
          cases b <;> simp <;> omega

/-- Nothing but general arguments before position `i`. -/
theorem before_of_general {banks : List Bool} {i : Nat} (hi : i ≤ banks.length)
    (h : ∀ j < i, banks[j]? = some false) : before true banks i = 0 ∧ before false banks i = i := by
  have hnone : before true banks i = 0 := by
    apply List.count_eq_zero.mpr
    intro hmem
    obtain ⟨j, hj⟩ := List.mem_iff_getElem?.mp hmem
    have hlt : j < i := by
      have hlen := (List.getElem?_eq_some_iff.mp hj).1
      rw [List.length_take] at hlen
      omega
    rw [List.getElem?_take_of_lt hlt, h j hlt] at hj
    cases hj
  have htotal := before_add banks i hi
  exact ⟨hnone, by omega⟩

/-- The general arguments are numbered without gaps. -/
theorem exists_before {banks : List Bool} {i n : Nat} (h : banks[i]? = some false)
    (hn : n ≤ before false banks i) :
    ∃ j, banks[j]? = some false ∧ before false banks j = n := by
  induction banks generalizing i n with
  | nil => cases h
  | cons b rest ih =>
      cases i with
      | zero =>
          refine ⟨0, h, ?_⟩
          have hzero : before false (b :: rest) 0 = 0 := by simp [before]
          omega
      | succ i =>
          rw [List.getElem?_cons_succ] at h
          rw [before_succ_cons] at hn
          cases b with
          | true =>
              obtain ⟨j, hj, hcount⟩ := ih h (by simpa using hn)
              refine ⟨j + 1, hj, ?_⟩
              rw [before_succ_cons, hcount, if_neg (by decide), Nat.add_zero]
          | false =>
              cases n with
              | zero => exact ⟨0, rfl, by simp [before]⟩
              | succ n =>
                  obtain ⟨j, hj, hcount⟩ := ih h (by simpa using hn)
                  refine ⟨j + 1, hj, ?_⟩
                  rw [before_succ_cons, hcount, if_pos rfl]

theorem before_le (kind : Bool) (banks : List Bool) (i : Nat) : before kind banks i ≤ i :=
  Nat.le_trans List.count_le_length (List.length_take_le i banks)

variable (G V : Nat)

/-- The place of a general argument after `gp` general and `fp` floating-point ones. -/
def spot (gp fp : Nat) : Place := if gp < G then .gr gp else .stack ((gp - G) + (fp - V))

theorem placeFrom_general (banks : List Bool) (a b i : Nat) (h : banks[i]? = some false) :
    (placeFrom G V (min a G) (min b V) ((a - G) + (b - V)) banks)[i]? =
      some (spot G V (a + before false banks i) (b + before true banks i)) := by
  induction banks generalizing a b i with
  | nil => simp at h
  | cons bank rest ih =>
      cases bank with
      | false =>
          have hnext := ih (a + 1) b
          cases i with
          | zero =>
              by_cases hroom : a < G
              · have hmin : min a G = a := by omega
                simp [placeFrom, hmin, hroom, spot, before]
              · have hmin : min a G = G := by omega
                simp [placeFrom, hmin, hroom, spot, before]
          | succ i =>
              have hcount :
                  a + 1 + before false rest i = a + before false (false :: rest) (i + 1) := by
                rw [before_succ_cons, if_pos rfl]
                omega
              have hother : before true (false :: rest) (i + 1) = before true rest i := by
                rw [before_succ_cons, if_neg (by simp), Nat.add_zero]
              rw [← hcount, hother, ← hnext i (by simpa using h)]
              by_cases hroom : a < G
              · have hmin : min a G = a := by omega
                have hmin' : min (a + 1) G = a + 1 := by omega
                have hslot : (a + 1 - G) + (b - V) = (a - G) + (b - V) := by omega
                rw [hmin, hmin', hslot, placeFrom, if_pos hroom, List.getElem?_cons_succ]
              · have hmin : min a G = G := by omega
                have hmin' : min (a + 1) G = G := by omega
                have hslot : (a + 1 - G) + (b - V) = (a - G) + (b - V) + 1 := by omega
                rw [hmin, hmin', hslot, placeFrom, if_neg (by omega), List.getElem?_cons_succ]
      | true =>
          have hnext := ih a (b + 1)
          cases i with
          | zero => simp at h
          | succ i =>
              have hcount :
                  b + 1 + before true rest i = b + before true (true :: rest) (i + 1) := by
                rw [before_succ_cons, if_pos rfl]
                omega
              have hother : before false (true :: rest) (i + 1) = before false rest i := by
                rw [before_succ_cons, if_neg (by simp), Nat.add_zero]
              rw [← hcount, hother, ← hnext i (by simpa using h)]
              by_cases hroom : b < V
              · have hmin : min b V = b := by omega
                have hmin' : min (b + 1) V = b + 1 := by omega
                have hslot : (a - G) + (b + 1 - V) = (a - G) + (b - V) := by omega
                rw [hmin, hmin', hslot, placeFrom, if_pos hroom, List.getElem?_cons_succ]
              · have hmin : min b V = V := by omega
                have hmin' : min (b + 1) V = V := by omega
                have hslot : (a - G) + (b + 1 - V) = (a - G) + (b - V) + 1 := by omega
                rw [hmin, hmin', hslot, placeFrom, if_neg (by omega), List.getElem?_cons_succ]

/-- A general argument takes the next register or, behind everything spilled
before it, a stack slot. -/
theorem place_general {banks : List Bool} {i : Nat} (h : banks[i]? = some false) :
    (place G V banks)[i]? =
      some (spot G V (before false banks i) (before true banks i)) := by
  simpa [place] using placeFrom_general G V banks 0 0 i h

/-! ### No two arguments share a place -/

/-- A place that the cursors have not reached. -/
def Unused (g v s : Nat) : Place → Prop
  | .gr k => g ≤ k
  | .vr k => v ≤ k
  | .stack k => s ≤ k

/-- One argument takes an unused place and leaves the cursors past it, the
stack by one slot at most; only a general argument takes a general register. -/
theorem placeFrom_cons (g v s : Nat) (bank : Bool) (rest : List Bool) :
    ∃ q g' v' s', placeFrom G V g v s (bank :: rest) = q :: placeFrom G V g' v' s' rest ∧
      Unused g v s q ∧ (∀ p, Unused g' v' s' p → Unused g v s p ∧ p ≠ q) ∧
      (∀ k, q = .gr k → bank = false ∧ k < G) ∧ s' ≤ s + 1 ∧ ∀ k, q = .stack k → k < s + 1 := by
  have hstack (p : Place) (h : Unused g v (s + 1) p) : Unused g v s p ∧ p ≠ .stack s := by
    cases p with
    | gr k => exact ⟨h, by simp⟩
    | vr k => exact ⟨h, by simp⟩
    | stack k =>
        have hpast : s + 1 ≤ k := h
        exact ⟨Nat.le_of_succ_le hpast, by simp; omega⟩
  cases bank with
  | false =>
      rw [placeFrom]
      split
      · refine ⟨.gr g, g + 1, v, s, rfl, Nat.le_refl g, ?_, by simpa, by omega, by simp⟩
        intro p h
        cases p with
        | gr k =>
            have hpast : g + 1 ≤ k := h
            exact ⟨Nat.le_of_succ_le hpast, by simp; omega⟩
        | vr k => exact ⟨h, by simp⟩
        | stack k => exact ⟨h, by simp⟩
      · exact ⟨.stack s, g, v, s + 1, rfl, Nat.le_refl s, hstack, by simp, by omega, by simp⟩
  | true =>
      rw [placeFrom]
      split
      · refine ⟨.vr v, g, v + 1, s, rfl, Nat.le_refl v, ?_, by simp, by omega, by simp⟩
        intro p h
        cases p with
        | gr k => exact ⟨h, by simp⟩
        | vr k =>
            have hpast : v + 1 ≤ k := h
            exact ⟨Nat.le_of_succ_le hpast, by simp; omega⟩
        | stack k => exact ⟨h, by simp⟩
      · exact ⟨.stack s, g, v, s + 1, rfl, Nat.le_refl s, hstack, by simp, by omega, by simp⟩

theorem unused_of_mem_placeFrom {g v s : Nat} {banks : List Bool} {p : Place}
    (h : p ∈ placeFrom G V g v s banks) : Unused g v s p := by
  induction banks generalizing g v s with
  | nil => simp [placeFrom] at h
  | cons bank rest ih =>
      obtain ⟨q, g', v', s', hcons, hq, hpast, -⟩ := placeFrom_cons G V g v s bank rest
      rw [hcons, List.mem_cons] at h
      rcases h with rfl | h
      · exact hq
      · exact (hpast p (ih h)).1

theorem placeFrom_nodup (g v s : Nat) (banks : List Bool) :
    (placeFrom G V g v s banks).Nodup := by
  induction banks generalizing g v s with
  | nil => exact List.nodup_nil
  | cons bank rest ih =>
      obtain ⟨q, g', v', s', hcons, -, hpast, -⟩ := placeFrom_cons G V g v s bank rest
      rw [hcons, List.nodup_cons]
      refine ⟨?_, ih g' v' s'⟩
      intro hmem
      exact (hpast q (unused_of_mem_placeFrom G V hmem)).2 rfl

/-- A general register in use is one of the `G`, and holds a general argument. -/
theorem general_of_gr {g v s : Nat} {banks : List Bool} {i k : Nat}
    (h : (placeFrom G V g v s banks)[i]? = some (.gr k)) : banks[i]? = some false ∧ k < G := by
  induction banks generalizing g v s i with
  | nil => simp [placeFrom] at h
  | cons bank rest ih =>
      obtain ⟨q, g', v', s', hcons, -, -, hgr, -⟩ := placeFrom_cons G V g v s bank rest
      rw [hcons] at h
      cases i with
      | zero => simpa using hgr k (by simpa using h)
      | succ i => simpa using ih (by simpa using h)

theorem lt_of_gr_mem {g v s : Nat} {banks : List Bool} {k : Nat}
    (h : .gr k ∈ placeFrom G V g v s banks) : k < G := by
  obtain ⟨i, hi⟩ := List.mem_iff_getElem?.mp h
  exact (general_of_gr G V hi).2

theorem lt_of_vr_mem {g v s : Nat} {banks : List Bool} {k : Nat}
    (h : .vr k ∈ placeFrom G V g v s banks) : k < V := by
  induction banks generalizing g v s with
  | nil => cases h
  | cons bank rest ih =>
      cases bank with
      | false =>
          rw [placeFrom] at h
          split at h
          · exact ih (List.mem_of_ne_of_mem (by simp) h)
          · exact ih (List.mem_of_ne_of_mem (by simp) h)
      | true =>
          rw [placeFrom] at h
          split at h
          · rename_i hroom
            rcases List.mem_cons.mp h with hhead | hrest
            · obtain rfl : k = v := by simpa using hhead
              exact hroom
            · exact ih hrest
          · exact ih (List.mem_of_ne_of_mem (by simp) h)

def Place.onStack : Place → Bool
  | .stack _ => true
  | _ => false

/-- The stack slots in use are the first ones. -/
theorem stack_lt_countP {g v s : Nat} {banks : List Bool} {k : Nat}
    (h : .stack k ∈ placeFrom G V g v s banks) :
    k < s + (placeFrom G V g v s banks).countP Place.onStack := by
  have hspilled (s : Nat) (rest : List Place)
      (hrest : .stack k ∈ rest → k < s + 1 + rest.countP Place.onStack)
      (h : .stack k ∈ .stack s :: rest) : k < s + (.stack s :: rest).countP Place.onStack := by
    rw [List.countP_cons_of_pos rfl]
    rcases List.mem_cons.mp h with hhead | hmem
    · obtain rfl : k = s := by simpa using hhead
      omega
    · have hlt := hrest hmem
      omega
  induction banks generalizing g v s with
  | nil => cases h
  | cons bank rest ih =>
      cases bank with
      | false =>
          rw [placeFrom] at h ⊢
          split at h
          · rename_i hroom
            rw [if_pos hroom, List.countP_cons_of_neg Bool.false_ne_true]
            exact ih (List.mem_of_ne_of_mem (by simp) h)
          · rename_i hroom
            rw [if_neg hroom]
            exact hspilled _ _ ih h
      | true =>
          rw [placeFrom] at h ⊢
          split at h
          · rename_i hroom
            rw [if_pos hroom, List.countP_cons_of_neg Bool.false_ne_true]
            exact ih (List.mem_of_ne_of_mem (by simp) h)
          · rename_i hroom
            rw [if_neg hroom]
            exact hspilled _ _ ih h

theorem length_placeFrom (g v s : Nat) (banks : List Bool) :
    (placeFrom G V g v s banks).length = banks.length := by
  induction banks generalizing g v s with
  | nil => rfl
  | cons bank rest ih =>
      obtain ⟨q, g', v', s', hcons, -⟩ := placeFrom_cons G V g v s bank rest
      rw [hcons, List.length_cons, List.length_cons, ih]

/-- Every argument takes one stack slot at most. -/
theorem stack_lt_of_mem {g v s : Nat} {banks : List Bool} {k : Nat}
    (h : .stack k ∈ placeFrom G V g v s banks) : k < s + banks.length := by
  have hlt := stack_lt_countP G V h
  have hle := List.countP_le_length (p := Place.onStack) (l := placeFrom G V g v s banks)
  rw [length_placeFrom] at hle
  omega

theorem place_nodup (banks : List Bool) : (place G V banks).Nodup := placeFrom_nodup G V 0 0 0 banks

/-! ### Filling the places -/

/-- The contents that put each word at its place and `dflt` elsewhere. -/
def layOut {α : Type} : List Place → List α → α → Place → α
  | p :: places, w :: words, dflt => Function.update (layOut places words dflt) p w
  | _, _, dflt => fun _ => dflt

section LayOut

variable {α : Type} (dflt : α)

theorem layOut_place {places : List Place} {words : List α} (hnodup : places.Nodup) {i : Nat}
    {p : Place} {w : α} (hp : places[i]? = some p) (hw : words[i]? = some w) :
    layOut places words dflt p = w := by
  induction places generalizing words i with
  | nil => simp at hp
  | cons q places ih =>
      cases words with
      | nil => simp at hw
      | cons x words =>
          obtain ⟨hnotin, hrest⟩ := List.nodup_cons.mp hnodup
          cases i with
          | zero =>
              obtain rfl : q = p := by simpa using hp
              obtain rfl : x = w := by simpa using hw
              exact Function.update_self ..
          | succ i =>
              have hp' : places[i]? = some p := by simpa using hp
              have hne : p ≠ q := by
                rintro rfl
                exact hnotin (List.mem_of_getElem? hp')
              rw [layOut, Function.update_of_ne hne]
              exact ih hrest hp' (by simpa using hw)

/-- What is at a place was put there or is the default. -/
theorem layOut_cases (places : List Place) (words : List α) (p : Place) :
    layOut places words dflt p = dflt ∨
      ∃ i : Nat, places[i]? = some p ∧ words[i]? = some (layOut places words dflt p) := by
  induction places generalizing words with
  | nil => exact Or.inl rfl
  | cons q places ih =>
      cases words with
      | nil => exact Or.inl rfl
      | cons x words =>
          by_cases hp : p = q
          · subst hp
            refine Or.inr ⟨0, rfl, ?_⟩
            simp [layOut]
          · rw [layOut, Function.update_of_ne hp]
            rcases ih words with hdflt | ⟨i, hplace, hword⟩
            · exact Or.inl hdflt
            · exact Or.inr ⟨i + 1, by simpa using hplace, by simpa using hword⟩

end LayOut

end Aapcs64
