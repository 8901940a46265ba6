import Mathlib.Data.Finmap

/-!
Go's built-in map: finitely many keys in no order, an assignment replaces what
the key held. A map built by a sequence of assignments is determined by their
set exactly when no two of them give one key different values.
-/

abbrev GoMap (κ ν : Type) := Finmap (fun _ : κ => ν)

namespace GoMap

variable {κ ν : Type}

/-- No key is given two values. -/
def Functional (writes : List (κ × ν)) : Prop :=
  ∀ k v v', (k, v) ∈ writes → (k, v') ∈ writes → v = v'

theorem Functional.of_subset {writes more : List (κ × ν)} (hf : Functional more)
    (h : ∀ w ∈ writes, w ∈ more) : Functional writes :=
  fun k v v' hv hv' => hf k v v' (h _ hv) (h _ hv')

theorem functional_of_nodup {writes : List (κ × ν)} (h : (writes.map Prod.fst).Nodup) :
    Functional writes := by
  intro k v v' hv hv'
  have heq := List.inj_on_of_nodup_map h hv hv' rfl
  exact congrArg Prod.snd heq

def len (m : GoMap κ ν) : Nat := m.entries.card

theorem len_eq_zero_iff (m : GoMap κ ν) : len m = 0 ↔ m = ∅ := by
  rw [len, Multiset.card_eq_zero, ← Finmap.ext_iff']
  rfl

variable [DecidableEq κ]

/-- The assignments `m[k] = v`, one after the other. -/
def assign (m : GoMap κ ν) (writes : List (κ × ν)) : GoMap κ ν :=
  writes.foldl (fun m w => m.insert w.1 w.2) m

def ofWrites (writes : List (κ × ν)) : GoMap κ ν := assign ∅ writes

theorem assign_append (m : GoMap κ ν) (writes more : List (κ × ν)) :
    assign m (writes ++ more) = assign (assign m writes) more :=
  List.foldl_append

theorem assign_concat (m : GoMap κ ν) (writes : List (κ × ν)) (k : κ) (v : ν) :
    assign m (writes ++ [(k, v)]) = (assign m writes).insert k v :=
  assign_append m writes [(k, v)]

theorem lookup_assign_of_notMem {m : GoMap κ ν} {writes : List (κ × ν)} {k : κ}
    (h : k ∉ writes.map Prod.fst) : (assign m writes).lookup k = m.lookup k := by
  induction writes using List.reverseRecOn with
  | nil => rfl
  | append_singleton writes w ih =>
      simp only [List.map_append, List.map_cons, List.map_nil, List.mem_append,
        List.mem_singleton, not_or] at h
      rw [assign_concat, Finmap.lookup_insert_of_ne _ h.2, ih h.1]

theorem lookup_assign_of_mem {m : GoMap κ ν} {writes : List (κ × ν)} {k : κ}
    (h : k ∈ writes.map Prod.fst) : ∃ v, (assign m writes).lookup k = some v ∧ (k, v) ∈ writes := by
  induction writes using List.reverseRecOn with
  | nil => cases h
  | append_singleton writes w ih =>
      rw [assign_concat]
      by_cases hkey : k = w.1
      · subst hkey
        exact ⟨w.2, Finmap.lookup_insert _, by simp⟩
      · have hearlier : k ∈ writes.map Prod.fst := by simpa [hkey] using h
        obtain ⟨v, hlookup, hmem⟩ := ih hearlier
        refine ⟨v, ?_, List.mem_append_left _ hmem⟩
        rw [Finmap.lookup_insert_of_ne _ hkey, hlookup]

theorem lookup_assign_of_unique {m : GoMap κ ν} {writes : List (κ × ν)} {k : κ} {v : ν}
    (hmem : (k, v) ∈ writes) (h : ∀ w ∈ writes, w.1 = k → w.2 = v) :
    (assign m writes).lookup k = some v := by
  obtain ⟨v', hlookup, hlast⟩ :=
    lookup_assign_of_mem (m := m) (List.mem_map_of_mem (f := Prod.fst) hmem)
  have hv : v' = v := h (k, v') hlast rfl
  rw [hlookup, hv]

theorem mem_of_lookup {writes : List (κ × ν)} {k : κ} {v : ν}
    (h : (ofWrites writes).lookup k = some v) : (k, v) ∈ writes := by
  by_cases hkey : k ∈ writes.map Prod.fst
  · obtain ⟨v', hlookup, hmem⟩ := lookup_assign_of_mem (m := ∅) hkey
    have heq : v' = v := Option.some.inj (hlookup.symm.trans h)
    exact heq ▸ hmem
  · have hnone := lookup_assign_of_notMem (m := ∅) hkey
    rw [Finmap.lookup_empty] at hnone
    exact absurd (h.symm.trans hnone) (Option.some_ne_none v)

theorem Functional.lookup {writes : List (κ × ν)} (hf : Functional writes) {k : κ} {v : ν}
    (h : (k, v) ∈ writes) : (ofWrites writes).lookup k = some v := by
  apply lookup_assign_of_unique h
  rintro ⟨k', v'⟩ hmem rfl
  exact hf k' v' v hmem h

theorem Functional.lookup_iff {writes : List (κ × ν)} (hf : Functional writes) {k : κ} {v : ν} :
    (ofWrites writes).lookup k = some v ↔ (k, v) ∈ writes :=
  ⟨mem_of_lookup, hf.lookup⟩

/-- Assignments that do not disagree may come in any order. -/
theorem Functional.ofWrites_congr {writes writes' : List (κ × ν)} (hf : Functional writes)
    (h : ∀ w, w ∈ writes ↔ w ∈ writes') : ofWrites writes = ofWrites writes' := by
  have hf' : Functional writes' := hf.of_subset (fun w hw => (h w).mpr hw)
  apply Finmap.ext_lookup
  intro k
  apply Option.ext
  intro v
  rw [hf.lookup_iff, hf'.lookup_iff, h]

theorem ofWrites_eq_empty_iff {writes : List (κ × ν)} : ofWrites writes = ∅ ↔ writes = [] := by
  constructor
  · intro hempty
    cases writes with
    | nil => rfl
    | cons w rest =>
        have hkey : w.1 ∈ (w :: rest).map Prod.fst := by simp
        obtain ⟨v, hlookup, -⟩ := lookup_assign_of_mem (m := ∅) hkey
        have hnone : (ofWrites (w :: rest)).lookup w.1 = none := by
          rw [hempty, Finmap.lookup_empty]
        exact absurd (hlookup.symm.trans hnone) (Option.some_ne_none v)
  · rintro rfl
    rfl

/-! ### `for k, v := range m` -/

/-- A map has at least as many entries as it is known to have keys. -/
theorem length_le_len {m : GoMap κ ν} {keys : List κ} (hnodup : keys.Nodup)
    (hkeys : ∀ k ∈ keys, k ∈ m) : keys.length ≤ m.len := by
  have hsubset : keys.toFinset ⊆ m.keys := by
    intro k hk
    rw [List.mem_toFinset] at hk
    exact Finmap.mem_keys.mpr (hkeys k hk)
  have hcard := Finset.card_le_card hsubset
  rw [List.toFinset_card_of_nodup hnodup] at hcard
  rwa [len, ← Multiset.card_map Sigma.fst m.entries]

/-- One of the orders in which a loop over the map may visit its entries. -/
structure RangesOver (m : GoMap κ ν) (order : List (κ × ν)) : Prop where
  once : (order.map Prod.fst).Nodup
  entries : ofWrites order = m

theorem RangesOver.mem_iff {m : GoMap κ ν} {order : List (κ × ν)} (h : RangesOver m order)
    {k : κ} {v : ν} : (k, v) ∈ order ↔ m.lookup k = some v := by
  rw [← h.entries, (functional_of_nodup h.once).lookup_iff]

theorem exists_order (m : GoMap κ ν) : ∃ order, RangesOver m order := by
  induction m using Finmap.induction_on with
  | H a =>
      have honce : ((a.entries.map (fun e => (e.1, e.2))).map Prod.fst).Nodup := by
        rw [List.map_map]
        exact a.nodupKeys
      refine ⟨a.entries.map (fun e => (e.1, e.2)), honce, ?_⟩
      apply Finmap.ext_lookup
      intro k
      apply Option.ext
      intro v
      rw [(functional_of_nodup honce).lookup_iff, Finmap.lookup_toFinmap,
        ← Option.mem_def, AList.mem_lookup_iff, List.mem_map]
      constructor
      · rintro ⟨⟨k', v'⟩, hmem, heq⟩
        cases heq
        exact hmem
      · intro hmem
        exact ⟨⟨k, v⟩, hmem, rfl⟩

end GoMap
