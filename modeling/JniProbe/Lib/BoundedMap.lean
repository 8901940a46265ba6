import Mathlib.Data.List.AList
import Mathlib.Data.List.Dedup

/-!
A hash map of fixed capacity, as the kernel's `BPF_MAP_TYPE_HASH`: an update
of a present key always succeeds, an insertion is rejected once the map holds
`cap` keys. The bound is a field, so a map over its capacity cannot be built.
-/

structure BoundedMap (κ ν : Type) [DecidableEq κ] (cap : Nat) where
  entries : AList (fun _ : κ => ν)
  bounded : entries.keys.length ≤ cap

namespace BoundedMap

variable {κ ν : Type} [DecidableEq κ] {cap : Nat}

def empty : BoundedMap κ ν cap := ⟨∅, by simp⟩

def lookup (m : BoundedMap κ ν cap) (k : κ) : Option ν := m.entries.lookup k

/-- Whether an update at `k` is accepted: the key is present or there is room. -/
def Accepts (m : BoundedMap κ ν cap) (k : κ) : Prop :=
  k ∈ m.entries ∨ m.entries.keys.length < cap

instance (m : BoundedMap κ ν cap) (k : κ) : Decidable (m.Accepts k) :=
  inferInstanceAs (Decidable (_ ∨ _))

private theorem length_insert_le (m : BoundedMap κ ν cap) (k : κ) (v : ν)
    (h : m.Accepts k) : (m.entries.insert k v).keys.length ≤ cap := by
  have hb := m.bounded
  rw [AList.keys_insert, List.length_cons, List.length_erase]
  rcases h with hmem | hroom
  · have hin : k ∈ m.entries.keys := hmem
    have hpos := List.length_pos_of_mem hin
    rw [if_pos hin]
    omega
  · split <;> omega

/-- `bpf_map_update_elem(…, BPF_ANY)`, its error code ignored. -/
def update (m : BoundedMap κ ν cap) (k : κ) (v : ν) : BoundedMap κ ν cap :=
  if h : m.Accepts k then ⟨m.entries.insert k v, length_insert_le m k v h⟩ else m

@[simp] theorem lookup_empty (k : κ) : (empty : BoundedMap κ ν cap).lookup k = none := by
  simp [empty, lookup]

theorem lookup_update_self (m : BoundedMap κ ν cap) (k : κ) (v : ν) (h : m.Accepts k) :
    (m.update k v).lookup k = some v := by
  simp [update, lookup, h]

theorem lookup_update_ne (m : BoundedMap κ ν cap) {k k' : κ} (v : ν) (h : k' ≠ k) :
    (m.update k v).lookup k' = m.lookup k' := by
  unfold update
  split
  · exact AList.lookup_insert_ne h
  · rfl

theorem update_of_not_accepts (m : BoundedMap κ ν cap) (k : κ) (v : ν)
    (h : ¬ m.Accepts k) : m.update k v = m := by
  simp [update, h]

theorem mem_iff_lookup (m : BoundedMap κ ν cap) (k : κ) :
    k ∈ m.entries ↔ (m.lookup k).isSome = true :=
  AList.lookup_isSome.symm

theorem mem_update (m : BoundedMap κ ν cap) (k k' : κ) (v : ν) (h : m.Accepts k) :
    k' ∈ (m.update k v).entries ↔ k' = k ∨ k' ∈ m.entries := by
  simp [update, h]

theorem mem_of_mem_update (m : BoundedMap κ ν cap) (k k' : κ) (v : ν)
    (h : k' ∈ (m.update k v).entries) : k' = k ∨ k' ∈ m.entries := by
  unfold update at h
  split at h
  · simpa using h
  · exact Or.inr h

/-- A key that an update leaves in the map was accepted. -/
theorem accepts_of_mem_update (m : BoundedMap κ ν cap) (k : κ) (v : ν)
    (h : k ∈ (m.update k v).entries) : m.Accepts k := by
  by_contra hrejected
  rw [update_of_not_accepts m k v hrejected] at h
  exact hrejected (Or.inl h)

/-- An update, accepted or not, removes no key. -/
theorem mem_update_of_mem (m : BoundedMap κ ν cap) (k : κ) {k' : κ} (v : ν)
    (h : k' ∈ m.entries) : k' ∈ (m.update k v).entries := by
  by_cases hk : m.Accepts k
  · exact (mem_update m k k' v hk).mpr (Or.inr h)
  · rwa [update_of_not_accepts m k v hk]

/-- An accepted update adds a key unless it is present. -/
theorem length_update (m : BoundedMap κ ν cap) (k : κ) (v : ν) (h : m.Accepts k) :
    (m.update k v).entries.keys.length =
      if k ∈ m.entries then m.entries.keys.length else m.entries.keys.length + 1 := by
  simp only [update, h, dif_pos, AList.keys_insert, List.length_cons]
  by_cases hmem : k ∈ m.entries
  · have hin : k ∈ m.entries.keys := hmem
    have hpos := List.length_pos_of_mem hin
    rw [if_pos hmem, List.length_erase_of_mem hin]
    omega
  · have hnotin : k ∉ m.entries.keys := hmem
    rw [if_neg hmem, List.erase_of_not_mem hnotin]

/-- An update never makes room. -/
theorem accepts_of_accepts_update (m : BoundedMap κ ν cap) (k k' : κ) (v : ν)
    (h : (m.update k v).Accepts k') : m.Accepts k' := by
  by_cases hk : m.Accepts k
  · have hlen : m.entries.keys.length ≤ (m.update k v).entries.keys.length := by
      rw [length_update m k v hk]
      split <;> omega
    rcases h with hmem | hroom
    · rcases (mem_update m k k' v hk).mp hmem with rfl | hold
      · exact hk
      · exact Or.inl hold
    · exact Or.inr (by omega)
  · rwa [update_of_not_accepts m k v hk] at h

/-- A map whose keys all lie in a set of at most `cap` members never rejects
a member of that set. -/
theorem accepts_of_subset (m : BoundedMap κ ν cap) (keys : List κ)
    (hkeys : ∀ k ∈ m.entries, k ∈ keys) (hlen : keys.dedup.length ≤ cap)
    (k : κ) (hk : k ∈ keys) : m.Accepts k := by
  by_cases hmem : k ∈ m.entries
  · exact Or.inl hmem
  · right
    have hsub : k :: m.entries.keys ⊆ keys.dedup := by
      intro x hx
      rw [List.mem_dedup]
      rcases List.mem_cons.mp hx with rfl | hx
      · exact hk
      · exact hkeys x hx
    have hnodup : (k :: m.entries.keys).Nodup :=
      List.nodup_cons.mpr ⟨hmem, m.entries.keys_nodup⟩
    have hle := (List.subperm_of_subset hnodup hsub).length_le
    rw [List.length_cons] at hle
    omega

/-! ### Filling a map from a list of distinct keys -/

/-- A loop of `Put` calls whose errors are ignored. -/
def fill (puts : List (κ × ν)) : BoundedMap κ ν cap :=
  puts.foldl (fun m kv => m.update kv.1 kv.2) empty

private theorem foldl_update_lookup (puts : List (κ × ν)) (m : BoundedMap κ ν cap)
    (hnodup : (puts.map Prod.fst).Nodup) (hfresh : ∀ k ∈ puts.map Prod.fst, k ∉ m.entries)
    (k : κ) :
    (puts.foldl (fun m kv => m.update kv.1 kv.2) m).lookup k =
      (((puts.take (cap - m.entries.keys.length)).find? (·.1 = k)).map Prod.snd).or
        (m.lookup k) := by
  induction puts generalizing m with
  | nil => simp
  | cons kv rest ih =>
      obtain ⟨hk₀, hrest⟩ : kv.1 ∉ rest.map Prod.fst ∧ (rest.map Prod.fst).Nodup := by
        simpa using hnodup
      have hnew : kv.1 ∉ m.entries := hfresh kv.1 (by simp)
      have hfreshRest : ∀ k ∈ rest.map Prod.fst, k ∉ m.entries := by
        intro k hk
        exact hfresh k (by simpa using Or.inr hk)
      rw [List.foldl_cons]
      by_cases hroom : m.entries.keys.length < cap
      · have hacc : m.Accepts kv.1 := Or.inr hroom
        have hlen : (m.update kv.1 kv.2).entries.keys.length = m.entries.keys.length + 1 := by
          rw [length_update m kv.1 kv.2 hacc, if_neg hnew]
        have hfresh' : ∀ k ∈ rest.map Prod.fst, k ∉ (m.update kv.1 kv.2).entries := by
          intro k hk hmem
          rcases mem_of_mem_update m _ _ _ hmem with rfl | hold
          · exact hk₀ hk
          · exact hfreshRest k hk hold
        rw [ih _ hrest hfresh', hlen]
        obtain ⟨n, hn⟩ : ∃ n, cap - m.entries.keys.length = n + 1 :=
          ⟨cap - m.entries.keys.length - 1, by omega⟩
        have hn' : cap - (m.entries.keys.length + 1) = n := by omega
        rw [hn, hn', List.take_succ_cons, List.find?_cons]
        by_cases hkey : kv.1 = k
        · subst hkey
          have hnone : (rest.take n).find? (·.1 = kv.1) = none := by
            rw [List.find?_eq_none]
            intro x hx heq
            exact hk₀ (List.mem_map.mpr ⟨x, List.mem_of_mem_take hx, by simpa using heq⟩)
          simp [hnone, lookup_update_self m _ _ hacc]
        · simp [hkey, lookup_update_ne m kv.2 (Ne.symm hkey)]
      · have hrej : ¬ m.Accepts kv.1 := by
          rintro (hmem | hroom')
          · exact hnew hmem
          · exact hroom hroom'
        have hzero : cap - m.entries.keys.length = 0 := by omega
        rw [update_of_not_accepts m _ _ hrej, ih m hrest hfreshRest, hzero]
        simp

/-- Distinct keys are stored in the order of the calls until the map is full;
every later one is dropped. -/
theorem fill_lookup (puts : List (κ × ν)) (hnodup : (puts.map Prod.fst).Nodup) (k : κ) :
    (fill puts : BoundedMap κ ν cap).lookup k =
      ((puts.take cap).find? (·.1 = k)).map Prod.snd := by
  have h := foldl_update_lookup puts (empty : BoundedMap κ ν cap) hnodup
    (by simp [empty]) k
  have hzero : (empty : BoundedMap κ ν cap).entries.keys.length = 0 := by simp [empty]
  rw [hzero] at h
  simpa [fill] using h

end BoundedMap
