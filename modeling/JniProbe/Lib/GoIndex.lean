import JniProbe.Lib.GoText

/-!
Go code that walks a string by index. An index or a slice outside the string
panics, and a loop need not end; both show here as faults, so that a program
that returns under some fuel is one that ends without a panic.
-/

namespace GoText

inductive Fault where
  | outOfRange
  | outOfFuel

/-- `s[i]` -/
def index (s : Bytes) (i : Nat) : Except Fault UInt8 :=
  match s[i]? with
  | some b => .ok b
  | none => .error .outOfRange

/-- `s[lo:hi]` -/
def slice (s : Bytes) (lo hi : Nat) : Except Fault Bytes :=
  if lo ≤ hi ∧ hi ≤ s.length then .ok ((s.take hi).drop lo) else .error .outOfRange

/-- `for i < len(s) && p(s[i]) { i++ }` -/
def skipFrom (s : Bytes) (p : UInt8 → Bool) : Nat → Nat → Except Fault Nat
  | 0, _ => .error .outOfFuel
  | fuel + 1, i =>
    if i < s.length then do
      let b ← index s i
      if p b then skipFrom s p fuel (i + 1) else return i
    else return i

theorem index_of_lt {s : Bytes} {i : Nat} (h : i < s.length) : index s i = .ok s[i] := by
  simp only [index, List.getElem?_eq_getElem h]

theorem slice_of_le {s : Bytes} {lo hi : Nat} (h : lo ≤ hi) (hhi : hi ≤ s.length) :
    slice s lo hi = .ok ((s.take hi).drop lo) := by
  rw [slice, if_pos ⟨h, hhi⟩]

/-- The loop stops behind the bytes that satisfy `p`, or at the end. -/
theorem skipFrom_eq (s : Bytes) (p : UInt8 → Bool) {fuel i : Nat} (hfuel : s.length - i < fuel) :
    skipFrom s p fuel i = .ok (i + ((s.drop i).takeWhile p).length) := by
  induction fuel generalizing i with
  | zero => omega
  | succ fuel ih =>
      rw [skipFrom]
      by_cases hi : i < s.length
      · rw [if_pos hi, index_of_lt hi, List.drop_eq_getElem_cons hi, List.takeWhile_cons]
        cases hp : p s[i] with
        | true =>
            have hrest := ih (show s.length - (i + 1) < fuel by omega)
            simp only [Except.bind, bind, hp, if_true, hrest, List.length_cons]
            congr 1
            omega
        | false => simp [bind, Except.bind, pure, Except.pure, hp]
      · rw [if_neg hi, List.drop_eq_nil_of_le (by omega)]
        rfl

end GoText
