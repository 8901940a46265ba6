import JniProbe.Loader.Stats
import JniProbe.Properties.Aggregates
import JniProbe.Properties.JsonLines
import Mathlib.Algebra.BigOperators.Group.List.Basic

/-!
What the table of `--count` says about a session: every row has the exact number
of its line, no line that is left out occurred more often than one that is shown,
and the counters account for every line.
-/

namespace JniProbe

open GoText Scenario

/-- With `--count` every emitted line is counted, and nothing else. -/
theorem counts_eq (S : Session) (hcount : S.cfg.count = true) (recs : List Record) :
    (Loader.after S recs).output.counts = countLines (linesFrom S Tracker.start recs) := by
  have hemit (lines : List Bytes) (out : Output) :
      (lines.foldl (fun out line => emit S.cfg line out) out).counts =
        lines.foldl bump out.counts := by
    induction lines generalizing out with
    | nil => rfl
    | cons line rest ih =>
        rw [List.foldl_cons, ih, List.foldl_cons]
        simp only [emit, hcount, if_true]
  rw [Loader.output_eq, hemit]
  rfl

theorem sum_bump (counts : List (Bytes × Nat)) (line : Bytes) :
    ((bump counts line).map Prod.snd).sum = (counts.map Prod.snd).sum + 1 := by
  induction counts with
  | nil => rfl
  | cons p rest ih =>
      obtain ⟨k, v⟩ := p
      rw [bump]
      split
      · simp only [List.map_cons, List.sum_cons]
        omega
      · simp only [List.map_cons, List.sum_cons, ih]
        omega

theorem sum_countLines (lines : List Bytes) :
    ((countLines lines).map Prod.snd).sum = lines.length := by
  induction lines using List.reverseRecOn with
  | nil => rfl
  | append_singleton lines line ih =>
      rw [countLines_concat, sum_bump, ih, List.length_append, List.length_singleton]

theorem lookup_of_mem {counts : List (Bytes × Nat)} (hnodup : (counts.map Prod.fst).Nodup)
    {x : Bytes × Nat} (hx : x ∈ counts) : counts.lookup x.1 = some x.2 := by
  induction counts with
  | nil => cases hx
  | cons y rest ih =>
      obtain ⟨hout, hrest⟩ := List.nodup_cons.mp hnodup
      rcases List.mem_cons.mp hx with rfl | hmem
      · rw [List.lookup_cons_self]
      · have hne : (x.1 == y.1) = false := by
          rw [beq_eq_false_iff_ne]
          intro heq
          exact hout (heq ▸ List.mem_map_of_mem hmem)
        rw [List.lookup_cons, hne]
        exact ih hrest hmem

/-- A counter holds how often its line was counted. -/
theorem countLines_value {lines : List Bytes} {x : Bytes × Nat} (hx : x ∈ countLines lines) :
    x.2 = lines.count x.1 ∧ x.1 ∈ lines := by
  obtain ⟨hnodup, hkeys⟩ := keys_countLines lines
  have hmem : x.1 ∈ lines := (hkeys x.1).mp (List.mem_map_of_mem hx)
  have hlookup := lookup_countLines lines x.1
  rw [if_pos hmem, lookup_of_mem hnodup hx] at hlookup
  exact ⟨Option.some.inj hlookup, hmem⟩

/-- The first members of a sorted array are not below the others. -/
theorem Ranked.take_le {counts arr : List (Bytes × Nat)} (h : Ranked counts arr) (top : Nat)
    {x y : Bytes × Nat} (hx : x ∈ arr.take top) (hy : y ∈ arr.drop top) : y.2 ≤ x.2 := by
  have hsorted := h.sorted
  rw [← List.take_append_drop top arr, List.pairwise_append] at hsorted
  exact hsorted.2.2 x hx y hy

/-- The table of a counted session, in whatever order equal counters come. -/
theorem top_calls_correct (S : Session) (hcount : S.cfg.count = true) (recs : List Record)
    (arr : List (Bytes × Nat)) (hranked : Ranked (Loader.after S recs).output.counts arr)
    (top : Nat) :
    ((topCalls arr top).map Prod.fst).Nodup ∧
      (∀ x ∈ topCalls arr top, x.1 ∈ linesFrom S Tracker.start recs ∧
        x.2 = (linesFrom S Tracker.start recs).count x.1) ∧
      (∀ line ∈ linesFrom S Tracker.start recs, line ∉ (topCalls arr top).map Prod.fst →
        ∀ x ∈ topCalls arr top, (linesFrom S Tracker.start recs).count line ≤ x.2) ∧
      (topCalls arr top).length = min top (linesFrom S Tracker.start recs).dedup.length ∧
      (arr.map Prod.snd).sum = (linesFrom S Tracker.start recs).length := by
  have hperm := hranked.perm
  rw [counts_eq S hcount] at hperm
  generalize linesFrom S Tracker.start recs = lines at hperm ⊢
  obtain ⟨hnodup, hkeys⟩ := keys_countLines lines
  have hvalue {x : Bytes × Nat} (hx : x ∈ arr) : x.2 = lines.count x.1 ∧ x.1 ∈ lines :=
    countLines_value (hperm.mem_iff.mp hx)
  refine ⟨?_, ?_, ?_, ?_, ?_⟩
  · have harr : (arr.map Prod.fst).Nodup := (hperm.map Prod.fst).nodup_iff.mpr hnodup
    exact harr.sublist ((List.take_sublist top arr).map Prod.fst)
  · intro x hx
    obtain ⟨hcounted, hmem⟩ := hvalue (List.mem_of_mem_take hx)
    exact ⟨hmem, hcounted⟩
  · intro line hline hout x hx
    obtain ⟨y, hy, rfl⟩ := List.mem_map.mp ((hkeys line).mpr hline)
    have hyarr : y ∈ arr := hperm.mem_iff.mpr hy
    have hdrop : y ∈ arr.drop top := by
      rw [← List.take_append_drop top arr] at hyarr
      rcases List.mem_append.mp hyarr with htake | hdrop
      · exact absurd (List.mem_map_of_mem htake) hout
      · exact hdrop
    rw [← (countLines_value hy).1]
    exact hranked.take_le top hx hdrop
  · rw [topCalls, List.length_take, hperm.length_eq, length_countLines]
  · rw [(hperm.map Prod.snd).sum_eq, sum_countLines]

theorem top_calls_twoCalls :
    (topCalls ((Loader.after countSession (twoCalls 1000000 3000000)).output.counts.mergeSort
      (fun a b => b.2 ≤ a.2)) 25).length =
        min 25 (linesFrom countSession Tracker.start (twoCalls 1000000 3000000)).dedup.length :=
  (top_calls_correct countSession rfl (twoCalls 1000000 3000000) _ (ranked_mergeSort _)
    25).2.2.2.1

example : statsLines [(str "-> FindClass(NULL)", 12), (str "-> ExceptionCheck()", 3)] 1 =
    [str "[*] top calls:", str "        12  -> FindClass(NULL)"] := by decide +kernel

end JniProbe
