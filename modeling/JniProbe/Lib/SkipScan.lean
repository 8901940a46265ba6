import Mathlib.Data.List.Basic

/-!
Searching a row of positions for records of a fixed width. After a hit the
search goes on behind the record; where no record can begin inside another,
it finds what a test of every position finds, and in the same order.
-/

namespace SkipScan

variable {σ : Type*} (hit : Nat → Bool) (visit : σ → Nat → σ)

/-- Every position is tested. -/
def exhaustive (positions : List Nat) (s : σ) : σ :=
  positions.foldl (fun s k => if hit k then visit s k else s) s

/-- The search from position `k` on, which skips over every record it finds. -/
def skipping (width count : Nat) : Nat → Nat → σ → Option σ
  | 0, _, _ => none
  | fuel + 1, k, s =>
      if k < count then
        if hit k then skipping width count fuel (k + width) (visit s k)
        else skipping width count fuel (k + 1) s
      else some s

/-- No record begins inside another. -/
def Separate (width : Nat) : Prop :=
  ∀ k d, hit k = true → 0 < d → d < width → hit (k + d) = false

variable {hit visit}

theorem exhaustive_cons (k : Nat) (positions : List Nat) (s : σ) :
    exhaustive hit visit (k :: positions) s =
      exhaustive hit visit positions (if hit k then visit s k else s) := rfl

theorem exhaustive_append (positions more : List Nat) (s : σ) :
    exhaustive hit visit (positions ++ more) s =
      exhaustive hit visit more (exhaustive hit visit positions s) :=
  List.foldl_append

theorem exhaustive_of_no_hit {positions : List Nat} (h : ∀ k ∈ positions, hit k = false) (s : σ) :
    exhaustive hit visit positions s = s := by
  induction positions generalizing s with
  | nil => rfl
  | cons k rest ih =>
      have hfirst : hit k = false := h k List.mem_cons_self
      rw [exhaustive_cons, hfirst]
      exact ih (fun k' hk' => h k' (List.mem_cons_of_mem _ hk')) s

/-- Positions without a hit can be left out from the front. -/
theorem exhaustive_range'_drop {k d n : Nat} (h : ∀ i < d, hit (k + i) = false) (s : σ) :
    exhaustive hit visit (List.range' k n) s =
      exhaustive hit visit (List.range' (k + d) (n - d)) s := by
  rcases Nat.le_total n d with hle | hle
  · have hnone : ∀ j ∈ List.range' k n, hit j = false := by
      intro j hj
      obtain ⟨hlow, hhigh⟩ := List.mem_range'_1.mp hj
      have hi := h (j - k) (by omega)
      rwa [Nat.add_sub_cancel' hlow] at hi
    rw [exhaustive_of_no_hit hnone, Nat.sub_eq_zero_of_le hle]
    rfl
  · have hsplit : List.range' k n = List.range' k d ++ List.range' (k + d) (n - d) := by
      rw [List.range'_append_1, Nat.add_sub_cancel' hle]
    have hnone : ∀ j ∈ List.range' k d, hit j = false := by
      intro j hj
      obtain ⟨hlow, hhigh⟩ := List.mem_range'_1.mp hj
      have hi := h (j - k) (by omega)
      rwa [Nat.add_sub_cancel' hlow] at hi
    rw [hsplit, exhaustive_append, exhaustive_of_no_hit hnone]

variable (hit visit) in
/-- The search ends; it visits hits only, and at least one where there are any. -/
theorem skipping_visits {width count : Nat} (hwidth : 0 < width) (fuel k : Nat) (s : σ)
    (hfuel : count - k < fuel) :
    ∃ ks, skipping hit visit width count fuel k s = some (ks.foldl visit s) ∧
      (∀ j ∈ ks, j ∈ List.range' k (count - k) ∧ hit j = true) ∧
      (ks = [] → ∀ j ∈ List.range' k (count - k), hit j = false) := by
  induction fuel generalizing k s with
  | zero => omega
  | succ fuel ih =>
      rw [skipping]
      split
      next hk =>
        split
        next hhit =>
          obtain ⟨ks, hrun, hvisited, -⟩ := ih (k + width) (visit s k) (by omega)
          refine ⟨k :: ks, hrun, ?_, fun hnil => absurd hnil (List.cons_ne_nil k ks)⟩
          intro j hj
          simp only [List.mem_range'_1]
          cases hj with
          | head => exact ⟨by omega, hhit⟩
          | tail _ hj =>
              obtain ⟨hrange, hj⟩ := hvisited j hj
              rw [List.mem_range'_1] at hrange
              exact ⟨by omega, hj⟩
        next hmiss =>
          obtain ⟨ks, hrun, hvisited, hnone⟩ := ih (k + 1) s (by omega)
          refine ⟨ks, hrun, ?_, ?_⟩
          · intro j hj
            obtain ⟨hrange, hj⟩ := hvisited j hj
            rw [List.mem_range'_1] at hrange ⊢
            exact ⟨by omega, hj⟩
          · intro hnil j hj
            rcases Nat.eq_or_lt_of_le (List.mem_range'_1.mp hj).1 with rfl | hlater
            · simpa using hmiss
            · apply hnone hnil
              rw [List.mem_range'_1] at hj ⊢
              omega
      next hk =>
        refine ⟨[], rfl, by simp, ?_⟩
        intro _ j hj
        rw [List.mem_range'_1] at hj
        omega

variable (visit) in
/-- Skipping loses no record, and the search ends. -/
theorem skipping_eq_exhaustive {width count : Nat} (hseparate : Separate hit width)
    (hwidth : 0 < width) (fuel k : Nat) (s : σ) (hfuel : count - k < fuel) :
    skipping hit visit width count fuel k s =
      some (exhaustive hit visit (List.range' k (count - k)) s) := by
  induction fuel generalizing k s with
  | zero => omega
  | succ fuel ih =>
      rw [skipping]
      by_cases hk : k < count
      · obtain ⟨n, hn⟩ : ∃ n, count - k = n + 1 := ⟨count - k - 1, by omega⟩
        rw [if_pos hk, hn, List.range'_succ, exhaustive_cons]
        cases hhit : hit k with
        | false =>
            have hrest : count - (k + 1) = n := by omega
            rw [if_neg Bool.false_ne_true, if_neg Bool.false_ne_true, ih _ _ (by omega), hrest]
        | true =>
            have hinside : ∀ i < width - 1, hit (k + 1 + i) = false := by
              intro i hi
              have h := hseparate k (1 + i) hhit (by omega) (by omega)
              rwa [← Nat.add_assoc] at h
            have hnext : k + 1 + (width - 1) = k + width := by omega
            have hrest : count - (k + width) = n - (width - 1) := by omega
            rw [if_pos rfl, if_pos rfl, ih _ _ (by omega), exhaustive_range'_drop hinside, hnext,
              hrest]
      · have hdone : count - k = 0 := by omega
        rw [if_neg hk, hdone]
        rfl

end SkipScan
