import JniProbe.Lib.GoIndex
import JniProbe.Loader.Descriptors

/-!
`parseParams` on any text. The scanner is written out with its index
expressions, each of which could panic, and its loops, each of which could go
on; it does neither and computes `parseParams`. The pieces it returns are
consecutive slices of the text behind the first byte.
-/

namespace JniProbe

open GoText

/-! ### The scanner, index by index -/

/-- `for i < len(sig) && sig[i] != ';' { i++ }; i++` -/
def scanClass (fuel : Nat) (sig : Bytes) (i : Nat) : Except Fault Nat := do
  let i ← skipFrom sig (· != 59) fuel i
  return i + 1

/-- The `switch` on the byte at `start`. -/
def scanParam (fuel : Nat) (sig : Bytes) (start : Nat) : Except Fault Nat := do
  let b ← index sig start
  if b = 76 then scanClass fuel sig start
  else if b = 91 then
    let i ← skipFrom sig (· == 91) fuel (start + 1)
    if i < sig.length then
      let c ← index sig i
      if c = 76 then scanClass fuel sig i else return i + 1
    else return i + 1
  else return start + 1

/-- The outer loop, with `inner` as the fuel of the loops inside. -/
def scanParams (inner : Nat) (sig : Bytes) : Nat → Nat → Except Fault (List Bytes)
  | 0, _ => .error .outOfFuel
  | fuel + 1, start =>
    if start < sig.length then do
      let b ← index sig start
      if b = 41 then return []
      else
        let i ← scanParam inner sig start
        if start < i ∧ i ≤ sig.length then
          let piece ← slice sig start i
          let rest ← scanParams inner sig fuel i
          return piece :: rest
        else scanParams inner sig fuel i
    else return []

def scanSignature (fuel : Nat) (sig : Bytes) : Except Fault (List Bytes) :=
  if sig.length = 0 then return []
  else do
    let b ← index sig 0
    if b = 40 then scanParams fuel sig fuel 1 else return []

/-! ### It returns what `parseParams` returns -/

theorem scanClass_eq {fuel : Nat} {sig : Bytes} {i : Nat} (hfuel : sig.length < fuel) :
    scanClass fuel sig i = .ok (classEnd sig i) := by
  have hskip := skipFrom_eq sig (· != 59) (show sig.length - i < fuel by omega)
  simp only [scanClass, hskip, bind, Except.bind, pure, Except.pure, classEnd, skipWhile]

theorem scanParam_eq {fuel : Nat} {sig : Bytes} {start : Nat} (hfuel : sig.length < fuel)
    (hstart : start < sig.length) : scanParam fuel sig start = .ok (paramEnd sig start) := by
  have hbyte (i : Nat) (hi : i < sig.length) (c : UInt8) : sig[i]? = some c ↔ sig[i] = c := by
    rw [List.getElem?_eq_getElem hi, Option.some.injEq]
  have hskip := skipFrom_eq sig (· == 91) (show sig.length - (start + 1) < fuel by omega)
  have hend : start + 1 + ((sig.drop (start + 1)).takeWhile (· == 91)).length =
      skipWhile sig (· == 91) (start + 1) := rfl
  rw [hend] at hskip
  simp only [scanParam, paramEnd, index_of_lt hstart, bind, Except.bind, hbyte start hstart]
  split
  · exact scanClass_eq hfuel
  split
  · rw [hskip]
    dsimp only
    by_cases hi : skipWhile sig (· == 91) (start + 1) < sig.length
    · rw [if_pos hi, index_of_lt hi]
      simp only [hbyte _ hi]
      split
      · exact scanClass_eq hfuel
      · rfl
    · rw [if_neg hi, List.getElem?_eq_none (by omega), if_neg (by simp)]
      rfl
  · rfl

theorem le_skipWhile (sig : Bytes) (p : UInt8 → Bool) (i : Nat) : i ≤ skipWhile sig p i :=
  Nat.le_add_right _ _

/-- Every round of the outer loop advances. -/
theorem lt_paramEnd (sig : Bytes) (start : Nat) : start < paramEnd sig start := by
  have hclass := le_skipWhile sig (· != 59) start
  have hbrackets := le_skipWhile sig (· == 91) (start + 1)
  unfold paramEnd classEnd
  split
  · omega
  split
  · have hinner := le_skipWhile sig (· != 59) (skipWhile sig (· == 91) (start + 1))
    dsimp only
    split
    · omega
    · omega
  · omega

theorem scanParams_eq {inner : Nat} {sig : Bytes} (hinner : sig.length < inner)
    {fuel fuel' start : Nat}
    (hfuel : sig.length - start < fuel) (hfuel' : sig.length - start ≤ fuel') :
    scanParams inner sig fuel start = .ok (paramsLoop sig fuel' start) := by
  induction fuel generalizing fuel' start with
  | zero => omega
  | succ fuel ih =>
      rw [scanParams]
      by_cases hstart : start < sig.length
      · obtain ⟨fuel', rfl⟩ : ∃ f, fuel' = f + 1 := ⟨fuel' - 1, by omega⟩
        have hadvance := lt_paramEnd sig start
        have hrest := ih (show sig.length - paramEnd sig start < fuel by omega)
          (show sig.length - paramEnd sig start ≤ fuel' by omega)
        simp only [paramsLoop, if_pos hstart, index_of_lt hstart, List.getElem?_eq_getElem hstart,
          bind, Except.bind]
        split
        · rfl
        · rw [scanParam_eq hinner hstart]
          dsimp only
          split
          · rename_i hwithin
            rw [slice_of_le hadvance.le hwithin.2, hrest]
            rfl
          · exact hrest
      · rw [if_neg hstart]
        cases fuel' with
        | zero => rfl
        | succ fuel' => simp only [paramsLoop, List.getElem?_eq_none (Nat.le_of_not_lt hstart)]; rfl

/-- The scanner ends without a panic, under any fuel beyond the length. -/
theorem scanSignature_eq {fuel : Nat} {sig : Bytes} (hfuel : sig.length < fuel) :
    scanSignature fuel sig = .ok (parseParams sig) := by
  unfold scanSignature parseParams
  cases sig with
  | nil => rfl
  | cons b rest =>
      have hfirst : index (b :: rest) 0 = .ok b := index_of_lt (Nat.zero_lt_succ _)
      rw [if_neg (by simp), hfirst]
      simp only [bind, Except.bind, List.getElem?_cons_zero, Option.some.injEq]
      split
      · apply scanParams_eq hfuel
        · omega
        · omega
      · rfl

/-! ### What it returns -/

theorem paramsLoop_pieces (sig : Bytes) (fuel start : Nat) :
    (∀ p ∈ paramsLoop sig fuel start, p ≠ []) ∧
      (paramsLoop sig fuel start).flatten <+: sig.drop start := by
  induction fuel generalizing start with
  | zero => exact ⟨by simp [paramsLoop], List.nil_prefix⟩
  | succ fuel ih =>
      rw [paramsLoop]
      cases hbyte : sig[start]? with
      | none => exact ⟨by simp, List.nil_prefix⟩
      | some c =>
          dsimp only
          split
          · exact ⟨by simp, List.nil_prefix⟩
          obtain ⟨hpieces, hwithin⟩ := ih (paramEnd sig start)
          have hadvance := lt_paramEnd sig start
          split
          · rename_i hle
            have hlength : ((sig.take (paramEnd sig start)).drop start).length =
                paramEnd sig start - start := by
              rw [List.length_drop, List.length_take, Nat.min_eq_left hle.2]
            constructor
            · intro p hp
              rcases List.mem_cons.mp hp with rfl | hp
              · apply List.ne_nil_of_length_pos
                omega
              · exact hpieces p hp
            · have hsplit : sig.drop start = (sig.take (paramEnd sig start)).drop start ++
                  sig.drop (paramEnd sig start) := by
                conv => lhs; rw [← List.take_append_drop (paramEnd sig start) sig]
                rw [List.drop_append_of_le_length]
                rw [List.length_take]
                omega
              rw [hsplit, List.flatten_cons]
              exact (List.prefix_append_right_inj _).mpr hwithin
          · rename_i hpast
            -- the last piece runs past the end, and nothing follows it
            have hend : sig.drop (paramEnd sig start) = [] :=
              List.drop_eq_nil_of_le (by omega)
            rw [hend, List.prefix_nil] at hwithin
            refine ⟨hpieces, ?_⟩
            rw [hwithin]
            exact List.nil_prefix

theorem parseParams_pieces (sig : Bytes) :
    (∀ p ∈ parseParams sig, p ≠ []) ∧ (parseParams sig).flatten <+: sig.drop 1 := by
  unfold parseParams
  split
  · exact paramsLoop_pieces sig sig.length 1
  · exact ⟨by simp, List.nil_prefix⟩

end JniProbe
