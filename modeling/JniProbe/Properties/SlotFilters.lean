import JniProbe.Loader.Filters
import JniProbe.System.Scenario

/-!
How modes, only list and exclude list combine. An only list does not narrow
what the modes let through, it takes their place; the exclude list then
restricts whatever is left.
-/

namespace JniProbe

open GoText

namespace Filters

/-- The modes want a function of this name. -/
def modesAllow (f : Filters) (name : Bytes) : Prop :=
  str "all" ∈ f.modes ∨ category name ∈ f.modes

/-- An entry of a list of names and prefixes matches this name. -/
def listed (entries : List Bytes) (name : Bytes) : Prop :=
  ∃ x ∈ entries, nameMatches name x = true

theorem listed_mono {entries entries' : List Bytes} (h : entries ⊆ entries') {name : Bytes}
    (hlisted : listed entries name) : listed entries' name := by
  obtain ⟨x, hx, hmatch⟩ := hlisted
  exact ⟨x, h hx, hmatch⟩

theorem not_listed_nil (name : Bytes) : ¬ listed [] name := by
  rintro ⟨x, hx, -⟩
  exact List.not_mem_nil hx

/-- The loop over the exclude list only ever clears the flag. -/
theorem foldl_exclude (name : Bytes) (exclude : List Bytes) (allow : Bool) :
    exclude.foldl (fun allow x => if nameMatches name x then false else allow) allow = true ↔
      allow = true ∧ ¬ listed exclude name := by
  induction exclude generalizing allow with
  | nil => simp [not_listed_nil]
  | cons x rest ih =>
      rw [List.foldl_cons, ih]
      cases hx : nameMatches name x with
      | true =>
          have hlisted : listed (x :: rest) name := ⟨x, List.mem_cons_self, hx⟩
          simp [hlisted]
      | false =>
          have hrest : listed (x :: rest) name ↔ listed rest name := by
            simp [listed, hx]
          rw [hrest]
          simp

/-- What the settings decide about a slot. -/
theorem matchSlot_iff (f : Filters) (slot : Nat) : f.matchSlot slot = true ↔
    (if f.only = [] then f.modesAllow (slotName slot) else listed f.only (slotName slot)) ∧
      ¬ listed f.exclude (slotName slot) := by
  unfold matchSlot
  dsimp only
  rw [foldl_exclude]
  apply and_congr_left
  intro _
  by_cases honly : f.only = []
  · by_cases hall : str "all" ∈ f.modes
    · simp [honly, modesAllow, hall]
    · simp [honly, modesAllow, hall]
  · simp [honly, listed]

end Filters

/-- What restricting filters would do for a slot. -/
structure FiltersRestrict (f : Filters) (slot : Nat) : Prop where
  only : f.only ≠ [] → f.matchSlot slot = true → { f with only := [] }.matchSlot slot = true
  exclude : ∀ exclude, f.exclude ⊆ exclude →
    { f with exclude := exclude }.matchSlot slot = true → f.matchSlot slot = true
  modes : ∀ modes, f.modes ⊆ modes → f.matchSlot slot = true →
    { f with modes := modes }.matchSlot slot = true
  lists : ∀ modes only exclude, (∀ m, m ∈ modes ↔ m ∈ f.modes) → (∀ x, x ∈ only ↔ x ∈ f.only) →
    (∀ x, x ∈ exclude ↔ x ∈ f.exclude) →
    { f with modes := modes, only := only, exclude := exclude }.matchSlot slot = f.matchSlot slot

/-- The slot is wanted by the modes, or not listed, or excluded. -/
def modesHaveSay (f : Filters) (slot : Nat) : Prop :=
  f.modesAllow (slotName slot) ∨ ¬ Filters.listed f.only (slotName slot) ∨
    Filters.listed f.exclude (slotName slot)

section Laws

variable (f : Filters) (slot : Nat)

theorem only_restricts_iff :
    (f.only ≠ [] → f.matchSlot slot = true → { f with only := [] }.matchSlot slot = true) ↔
      modesHaveSay f slot := by
  simp only [Filters.matchSlot_iff, if_true]
  constructor
  · intro h
    by_cases hlisted : Filters.listed f.only (slotName slot)
    · by_cases hexcluded : Filters.listed f.exclude (slotName slot)
      · exact Or.inr (Or.inr hexcluded)
      · have honly : f.only ≠ [] := by
          intro hnil
          rw [hnil] at hlisted
          exact Filters.not_listed_nil _ hlisted
        rw [if_neg honly] at h
        exact Or.inl (h honly ⟨hlisted, hexcluded⟩).1
    · exact Or.inr (Or.inl hlisted)
  · rintro h honly ⟨hlisted, hexcluded⟩
    rw [if_neg honly] at hlisted
    rcases h with hmodes | hnot | hyes
    · exact ⟨hmodes, hexcluded⟩
    · exact absurd hlisted hnot
    · exact absurd hyes hexcluded

theorem exclude_restricts {exclude : List Bytes} (hsub : f.exclude ⊆ exclude)
    (h : { f with exclude := exclude }.matchSlot slot = true) : f.matchSlot slot = true := by
  rw [Filters.matchSlot_iff] at h ⊢
  exact ⟨h.1, fun hlisted => h.2 (Filters.listed_mono hsub hlisted)⟩

theorem modes_extend {modes : List Bytes} (hsub : f.modes ⊆ modes)
    (h : f.matchSlot slot = true) : { f with modes := modes }.matchSlot slot = true := by
  rw [Filters.matchSlot_iff] at h ⊢
  refine ⟨?_, h.2⟩
  by_cases honly : f.only = []
  · rw [if_pos honly] at h ⊢
    exact h.1.imp (hsub ·) (hsub ·)
  · rw [if_neg honly] at h ⊢
    exact h.1

/-- Only the members of the lists count. -/
theorem matchSlot_members {modes only exclude : List Bytes} (hmodes : ∀ m, m ∈ modes ↔ m ∈ f.modes)
    (honly : ∀ x, x ∈ only ↔ x ∈ f.only) (hexclude : ∀ x, x ∈ exclude ↔ x ∈ f.exclude) :
    { f with modes := modes, only := only, exclude := exclude }.matchSlot slot =
      f.matchSlot slot := by
  have hnil : only = [] ↔ f.only = [] := by
    simp only [List.eq_nil_iff_forall_not_mem, honly]
  rw [Bool.eq_iff_iff, Filters.matchSlot_iff, Filters.matchSlot_iff]
  simp only [Filters.modesAllow, Filters.listed, hmodes, honly, hexclude, hnil]

/-- The filters restrict exactly if no listed slot gets past modes that do not
want it; all but the only list always do. -/
theorem filters_restrict_iff : FiltersRestrict f slot ↔ modesHaveSay f slot := by
  constructor
  · intro h
    exact (only_restricts_iff f slot).mp h.only
  · intro h
    refine ⟨(only_restricts_iff f slot).mpr h, ?_, ?_, ?_⟩
    · intro exclude hsub
      exact exclude_restricts f slot hsub
    · intro modes hsub
      exact modes_extend f slot hsub
    · intro modes only exclude hmodes honly hexclude
      exact matchSlot_members f slot hmodes honly hexclude

end Laws

namespace Scenario

/-- `-m class --only NewStringUTF` -/
def classOnlyString : Filters :=
  { filters with modes := [str "class"], only := [str "NewStringUTF"] }

end Scenario

open Scenario in
/-- `NewStringUTF` is no function of the mode `class`, but listing it traces it. -/
theorem only_widens_mode :
    slotName 167 = str "NewStringUTF" ∧ category (slotName 167) = str "string" ∧
      classOnlyString.matchSlot 167 = true ∧
      { classOnlyString with only := [] }.matchSlot 167 = false ∧
      ¬ FiltersRestrict classOnlyString 167 := by
  have hwith : classOnlyString.matchSlot 167 = true := by decide +kernel
  have hwithout : { classOnlyString with only := [] }.matchSlot 167 = false := by
    decide +kernel
  refine ⟨by decide +kernel, by decide +kernel, hwith, hwithout, ?_⟩
  intro h
  have haccepted := h.only (List.cons_ne_nil _ _) hwith
  rw [hwithout] at haccepted
  cases haccepted

end JniProbe
