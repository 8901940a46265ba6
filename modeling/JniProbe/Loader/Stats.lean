import JniProbe.Lib.GoFormat
import Mathlib.Data.List.Sort

/-!
The table of the most frequent lines, printed at the end and by the command
`stats`. Go visits the map of counters in any order and `sort.Slice` leaves equal
counters in any order, so the table is one of several.
-/

namespace JniProbe

open GoText GoFormat

/-- `%6d` -/
def padLeft (width : Nat) (s : Bytes) : Bytes := List.replicate (width - s.length) 32 ++ s

/-- The rows that are printed. -/
def topCalls (arr : List (Bytes × Nat)) (top : Nat) : List (Bytes × Nat) := arr.take top

def statsLine (x : Bytes × Nat) : Bytes :=
  str "    " ++ padLeft 6 (digits 10 x.2) ++ str "  " ++ x.1

/-- What `printStats` prints of a sorted array. -/
def statsLines (arr : List (Bytes × Nat)) (top : Nat) : List Bytes :=
  if arr = [] then [] else str "[*] top calls:" :: (topCalls arr top).map statsLine

/-- An array that `sort.Slice` may make of the counters. -/
structure Ranked (counts arr : List (Bytes × Nat)) : Prop where
  perm : arr.Perm counts
  sorted : arr.Pairwise (fun a b => b.2 ≤ a.2)

/-- `printStats`, with a stable sort of the counters in the order of their first line. -/
def printStats (counts : List (Bytes × Nat)) (top : Nat) : List Bytes :=
  statsLines (counts.mergeSort (fun a b => b.2 ≤ a.2)) top

theorem ranked_mergeSort (counts : List (Bytes × Nat)) :
    Ranked counts (counts.mergeSort (fun a b => b.2 ≤ a.2)) where
  perm := List.mergeSort_perm _ _
  sorted := by
    have htrans (a b c : Bytes × Nat) (hab : decide (b.2 ≤ a.2) = true)
        (hbc : decide (c.2 ≤ b.2) = true) : decide (c.2 ≤ a.2) = true := by
      simp only [decide_eq_true_eq] at hab hbc ⊢
      omega
    have htotal (a b : Bytes × Nat) :
        (decide (b.2 ≤ a.2) || decide (a.2 ≤ b.2)) = true := by
      simp only [Bool.or_eq_true, decide_eq_true_eq]
      omega
    have hsorted := List.pairwise_mergeSort htrans htotal counts
    simpa using hsorted

end JniProbe
