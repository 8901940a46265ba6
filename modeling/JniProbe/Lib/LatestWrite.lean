import Mathlib.Data.List.Induction
import Mathlib.Logic.Function.Basic

/-!
Maps that only grow by writes. Each item of a log writes at most one key, and
a key holds the value of the latest item that wrote it. A component whose steps
do no more than that to one of its maps is described by the log alone.
-/

namespace LatestWrite

variable {σ ι κ ω : Type*} [DecidableEq κ]

def put (f : κ → Option ω) : Option (κ × ω) → κ → Option ω
  | none => f
  | some (k, v) => Function.update f k (some v)

@[simp] theorem put_none (f : κ → Option ω) : put f none = f := rfl

theorem put_some (f : κ → Option ω) (k : κ) (v : ω) :
    put f (some (k, v)) = Function.update f k (some v) := rfl

theorem put_of_ne {f : κ → Option ω} {w : Option (κ × ω)} {k : κ}
    (h : ∀ p ∈ w, p.1 ≠ k) : put f w k = f k := by
  cases w with
  | none => rfl
  | some p => exact Function.update_of_ne (h p rfl).symm _ _

/-- What a log leaves under each key. -/
def latest (writes : ι → Option (κ × ω)) (log : List ι) : κ → Option ω :=
  log.foldl (fun f i => put f (writes i)) (fun _ => none)

variable (writes : ι → Option (κ × ω))

@[simp] theorem latest_nil : latest writes [] = fun _ => none := rfl

theorem latest_concat (log : List ι) (i : ι) :
    latest writes (log ++ [i]) = put (latest writes log) (writes i) := by
  simp [latest]

/-- A map that every step changes by the item's write is given by the log. -/
theorem foldl_eq_latest (step : σ → ι → σ) (read : σ → κ → Option ω)
    (hstep : ∀ s i, read (step s i) = put (read s) (writes i)) {s : σ}
    (hstart : read s = fun _ => none) (log : List ι) :
    read (log.foldl step s) = latest writes log := by
  induction log using List.reverseRecOn with
  | nil => exact hstart
  | append_singleton log i ih =>
      rw [List.foldl_append, List.foldl_cons, List.foldl_nil, hstep, ih, latest_concat]

variable {writes} {log : List ι} {k : κ} {v : ω}

theorem latest_eq_none_iff :
    latest writes log k = none ↔ ∀ i ∈ log, ∀ p ∈ writes i, p.1 ≠ k := by
  induction log using List.reverseRecOn with
  | nil => simp
  | append_singleton log i ih =>
      rw [latest_concat]
      simp only [List.mem_append, List.mem_singleton, or_imp, forall_and, forall_eq, ← ih]
      cases hwrite : writes i with
      | none => simp
      | some p =>
          rw [put_some]
          by_cases hk : k = p.1
          · simp [hk]
          · rw [Function.update_of_ne hk]
            simp [Ne.symm hk]

/-- The value under a key was written by an item that no later item overwrote. -/
theorem latest_eq_some_iff :
    latest writes log k = some v ↔ ∃ before i after, log = before ++ i :: after ∧
      writes i = some (k, v) ∧ ∀ j ∈ after, ∀ p ∈ writes j, p.1 ≠ k := by
  induction log using List.reverseRecOn with
  | nil => simp
  | append_singleton log i ih =>
      rw [latest_concat]
      constructor
      · intro h
        by_cases hwrite : ∀ p ∈ writes i, p.1 ≠ k
        · rw [put_of_ne hwrite, ih] at h
          obtain ⟨before, i', after, rfl, hi', hafter⟩ := h
          refine ⟨before, i', after ++ [i], by simp, hi', ?_⟩
          intro j hj
          rcases List.mem_append.mp hj with hold | hnew
          · exact hafter j hold
          · rw [List.mem_singleton.mp hnew]
            exact hwrite
        · push Not at hwrite
          obtain ⟨⟨k', v'⟩, hmem, rfl⟩ := hwrite
          rw [Option.mem_def.mp hmem, put_some, Function.update_self] at h
          obtain rfl : v' = v := Option.some.inj h
          exact ⟨log, i, [], by simp, hmem, by simp⟩
      · rintro ⟨before, i', after, hlog, hi', hafter⟩
        rcases List.eq_nil_or_concat after with rfl | ⟨init, last, rfl⟩
        · obtain ⟨-, hi⟩ := List.append_inj' hlog rfl
          obtain rfl : i = i' := by simpa using hi
          rw [hi', put_some, Function.update_self]
        · have hsplit : log ++ [i] = (before ++ i' :: init) ++ [last] := by simpa using hlog
          obtain ⟨hbefore, hi⟩ := List.append_inj' hsplit rfl
          obtain rfl : i = last := by simpa using hi
          rw [put_of_ne (hafter i (by simp)), ih]
          exact ⟨before, i', init, hbefore, hi', fun j hj => hafter j (by simp [hj])⟩

theorem mem_of_latest (h : latest writes log k = some v) : ∃ i ∈ log, writes i = some (k, v) := by
  obtain ⟨before, i, after, rfl, hwrite, -⟩ := latest_eq_some_iff.mp h
  exact ⟨i, by simp, hwrite⟩

/-! ### Who wrote -/

/-- The position of the item that wrote last under each key. -/
def latestAt (writes : ι → Option (κ × ω)) (log : List ι) : κ → Option Nat :=
  latest (fun p : ι × Nat => (writes p.1).map (fun w => (w.1, p.2))) log.zipIdx

variable (writes) in
theorem latestAt_concat (log : List ι) (i : ι) : latestAt writes (log ++ [i]) =
    put (latestAt writes log) ((writes i).map (fun w => (w.1, log.length))) := by
  rw [latestAt, List.zipIdx_append, List.zipIdx_singleton, Nat.zero_add, latest_concat]
  rfl

/-- The item at the position wrote what is there. -/
theorem latestAt_eq_some {n : Nat} (h : latestAt writes log k = some n) :
    ∃ i v, log[n]? = some i ∧ writes i = some (k, v) ∧ latest writes log k = some v := by
  induction log using List.reverseRecOn with
  | nil => cases h
  | append_singleton log i ih =>
      rw [latestAt_concat] at h
      rw [latest_concat]
      have hold (hrest : latestAt writes log k = some n) :
          ∃ i' v, (log ++ [i])[n]? = some i' ∧ writes i' = some (k, v) ∧
            latest writes log k = some v := by
        obtain ⟨i', v, hi', hwrite, hvalue⟩ := ih hrest
        obtain ⟨hlt, -⟩ := List.getElem?_eq_some_iff.mp hi'
        exact ⟨i', v, by rwa [List.getElem?_append_left hlt], hwrite, hvalue⟩
      cases hwrite : writes i with
      | none =>
          rw [hwrite, Option.map_none, put_none] at h
          rw [put_none]
          exact hold h
      | some p =>
          rw [hwrite, Option.map_some, put_some] at h
          rw [put_some]
          by_cases hk : k = p.1
          · subst hk
            rw [Function.update_self] at h ⊢
            obtain rfl := Option.some.inj h
            exact ⟨i, p.2, by simp, hwrite, rfl⟩
          · rw [Function.update_of_ne hk] at h ⊢
            exact hold h

theorem latestAt_isSome : (latestAt writes log k).isSome = (latest writes log k).isSome := by
  induction log using List.reverseRecOn with
  | nil => rfl
  | append_singleton log i ih =>
      rw [latestAt_concat, latest_concat]
      cases writes i with
      | none => exact ih
      | some p =>
          rw [Option.map_some, put_some, put_some]
          by_cases hk : k = p.1
          · subst hk
            rw [Function.update_self, Function.update_self]
            rfl
          · rw [Function.update_of_ne hk, Function.update_of_ne hk]
            exact ih

theorem latestAt_lt {n : Nat} (h : latestAt writes log k = some n) : n < log.length := by
  obtain ⟨i, v, hi, -⟩ := latestAt_eq_some h
  exact (List.getElem?_eq_some_iff.mp hi).1

end LatestWrite
