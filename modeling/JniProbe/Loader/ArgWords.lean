import JniProbe.Lib.Aapcs64
import JniProbe.Loader.Descriptors

/-!
Which captured word each decoder takes for a parameter. `decodeA` and
`decodeDirect` count parameters; `decodeV` walks the general registers of a
`va_list` and then its stack, and passes over floating point.
-/

namespace JniProbe

open GoText Aapcs64

variable (e : Evt) (c : Caches) (mr : Option UserMemory)

theorem windowWord_of_lt (words : Vector UInt64 ncapWords) {i : Nat} (h : i < ncapWords) :
    windowWord words i = words[i] := by
  have hrange : (0 : Int) ≤ i ∧ (i : Int) < 16 := by
    have hcap : ncapWords = 16 := rfl
    omega
  simp [windowWord, hrange, Vector.get]

theorem decodeA_getElem? (params : List Bytes) {i : Nat} {t : Bytes} (h : params[i]? = some t) :
    (decodeA e params c mr)[i]? =
      some (if i ≥ ncapWords then str "?" else fmtJV t (windowWord e.cap i) c mr) := by
  simp [decodeA, h]

theorem decodeDirect_getElem? (params : List Bytes) {i : Nat} {t : Bytes}
    (h : params[i]? = some t) :
    (decodeDirect e params c mr)[i]? = some (if i ≥ e.ncap.toNat ∨ i ≥ 2 then str "?"
      else fmtJV t (windowWord e.cap i) c mr) := by
  simp [decodeDirect, h]

theorem length_decodeA (params : List Bytes) : (decodeA e params c mr).length = params.length := by
  simp [decodeA]

theorem length_decodeDirect (params : List Bytes) :
    (decodeDirect e params c mr).length = params.length := by
  simp [decodeDirect]

/-! ### The cursors of `decodeV` -/

theorem length_decodeVFrom (params : List Bytes) (grOffs : Int64) (stack : UInt64) :
    (decodeVFrom e c mr params grOffs stack).length = params.length := by
  induction params generalizing grOffs stack with
  | nil => rfl
  | cons t rest ih =>
      simp only [decodeVFrom]
      split
      · simp [ih]
      · split <;> simp [ih]

theorem decodeVFrom_fp (params : List Bytes) (grOffs : Int64) (stack : UInt64) {i : Nat}
    {t : Bytes} (h : params[i]? = some t) (hfp : t = str "F" ∨ t = str "D") :
    (decodeVFrom e c mr params grOffs stack)[i]? = some (str "?") := by
  induction params generalizing grOffs stack i with
  | nil => simp at h
  | cons t' rest ih =>
      cases i with
      | zero =>
          obtain rfl : t' = t := by simpa using h
          simp [decodeVFrom, hfp]
      | succ i =>
          have hrest : rest[i]? = some t := by simpa using h
          simp only [decodeVFrom]
          split
          · simpa using ih _ _ hrest
          · split <;> simpa using ih _ _ hrest

/-- The captured word for the general parameter number `n` when `G` registers
are left: a register, else the stack slot number `n - G`. -/
def generalWord (G n : Nat) : UInt64 :=
  if n < G then windowWord e.cap ((16 - G + n : Nat) : Int)
  else windowWord e.cap2 ((n - G : Nat) : Int)

/-- The register cursor after `n` general parameters. -/
def grCursor (G n : Nat) : Int64 := Int64.ofInt (-(8 * (G - n : Nat)))

/-- The stack cursor after `n` general parameters. -/
def stackCursor (G n : Nat) : UInt64 := e.vstk + 8 * (n - G).toUInt64

section Cursors

variable {G n : Nat}

theorem grCursor_neg_iff (hG : G ≤ 8) : grCursor G n < 0 ↔ n < G := by
  have hcursor : ∀ k ≤ 8, Int64.ofInt (-(8 * (k : Nat))) < 0 ↔ 0 < k := by decide
  rw [grCursor, hcursor (G - n) (by omega)]
  omega

theorem grCursor_add (hG : G ≤ 8) (h : n < G) : grCursor G n + 8 = grCursor G (n + 1) := by
  have hcursor :
      ∀ k ≤ 8, Int64.ofInt (-(8 * (k + 1 : Nat))) + 8 = Int64.ofInt (-(8 * (k : Nat))) := by
    decide
  have hleft : G - n = G - (n + 1) + 1 := by omega
  rw [grCursor, hleft, hcursor (G - (n + 1)) (by omega), grCursor]

theorem stackCursor_add (h : G ≤ n) : stackCursor e G n + 8 = stackCursor e G (n + 1) := by
  have hnext : n + 1 - G = (n - G) + 1 := by omega
  rw [stackCursor, stackCursor, hnext, Nat.toUInt64_eq, Nat.toUInt64_eq, UInt64.ofNat_add]
  grind

theorem grIndex (hG : G ≤ 8) (h : n < G) :
    ((e.vgr.toInt64 + grCursor G n - (e.vgr - 128).toInt64) / 8).toInt =
      ((16 - G + n : Nat) : Int) := by
  have hindex : ∀ k ≤ 8, ((Int64.ofInt (-(8 * (k : Nat))) + 128) / 8).toInt =
      ((16 - k : Nat) : Int) := by
    decide
  have hbase : (e.vgr - 128).toInt64 = e.vgr.toInt64 - 128 := UInt64.toInt64_sub _ _
  have hoffset : e.vgr.toInt64 + grCursor G n - (e.vgr - 128).toInt64 = grCursor G n + 128 := by
    rw [hbase]
    grind
  have hslot : 16 - (G - n) = 16 - G + n := by omega
  rw [hoffset, grCursor, hindex (G - n) (by omega), hslot]

theorem stackIndex (h : G ≤ n) (hn : n < 2 ^ 32) :
    (((stackCursor e G n - e.vstk) / 8).toInt64).toInt = ((n - G : Nat) : Int) := by
  have hoffset : stackCursor e G n - e.vstk = 8 * (n - G).toUInt64 := by
    rw [stackCursor]
    grind
  have hindex : 8 * (n - G).toUInt64 / 8 = (n - G).toUInt64 := by
    apply UInt64.toNat_inj.mp
    simp
    omega
  have hsize : Int64.size = 2 ^ 64 := rfl
  rw [hoffset, hindex]
  simp only [Nat.toUInt64_eq, UInt64.toInt64_ofNat', Int64.toInt_ofNat']
  exact Int.bmod_eq_of_le (by omega) (by omega)

end Cursors

/-- Without registers left the walk is along the stack, whatever the offset. -/
theorem decodeVFrom_nonneg (params : List Bytes) {grOffs : Int64} (h : 0 ≤ grOffs)
    (stack : UInt64) :
    decodeVFrom e c mr params grOffs stack = decodeVFrom e c mr params 0 stack := by
  have hnone : ¬ grOffs < 0 := Int64.not_lt.mpr h
  have hzero : ¬ (0 : Int64) < 0 := by decide
  induction params generalizing stack with
  | nil => rfl
  | cons t rest ih =>
      simp only [decodeVFrom, hnone, hzero, and_false, if_false, ih]

/-- `decodeV` takes registers and stack slots in order and skips floating point,
also where it was passed on the stack. -/
theorem decodeVFrom_general (params : List ParamType) {G : Nat} (hG : G ≤ 8)
    (htop : 0 < G → e.vgr ≠ 0) (n : Nat) {i : Nat} {t : ParamType} (h : params[i]? = some t)
    (hgeneral : t.isFp = false)
    (hsmall : n + before false (params.map ParamType.isFp) i < 2 ^ 32) :
    (decodeVFrom e c mr (params.map ParamType.desc) (grCursor G n) (stackCursor e G n))[i]? =
      some (fmtJV t.desc
        (generalWord e G (n + before false (params.map ParamType.isFp) i)) c mr) := by
  induction params generalizing n i with
  | nil => simp at h
  | cons p rest ih =>
      rw [List.map_cons, decodeVFrom]
      cases hp : p.isFp with
      | true =>
          -- skipped, and not counted among the general ones
          rw [if_pos ((desc_isFp p).mpr hp)]
          cases i with
          | zero =>
              obtain rfl : p = t := by simpa using h
              rw [hp] at hgeneral
              cases hgeneral
          | succ i =>
              have hcount : before false ((p :: rest).map ParamType.isFp) (i + 1) =
                  before false (rest.map ParamType.isFp) i := by
                rw [List.map_cons, hp, before_succ_cons, if_neg (by decide), Nat.add_zero]
              rw [hcount] at hsmall ⊢
              rw [List.getElem?_cons_succ, ih n (by simpa using h) hsmall]
      | false =>
          have hcount (i : Nat) : n + before false ((p :: rest).map ParamType.isFp) (i + 1) =
              n + 1 + before false (rest.map ParamType.isFp) i := by
            rw [List.map_cons, hp, before_succ_cons, if_pos rfl]
            omega
          have hnotfp : ¬ (p.desc = str "F" ∨ p.desc = str "D") := by
            rw [desc_isFp, hp]
            decide
          rw [if_neg hnotfp]
          by_cases hn : n < G
          · rw [if_pos ⟨htop (by omega), (grCursor_neg_iff hG).mpr hn⟩]
            have hstack : stackCursor e G n = stackCursor e G (n + 1) := by
              rw [stackCursor, stackCursor, show n - G = n + 1 - G by omega]
            cases i with
            | zero =>
                obtain rfl : p = t := by simpa using h
                rw [List.getElem?_cons_zero, grIndex e hG hn, generalWord]
                simp [before, hn]
            | succ i =>
                rw [hcount] at hsmall ⊢
                rw [List.getElem?_cons_succ, grCursor_add hG hn, hstack,
                  ih (n + 1) (by simpa using h) hsmall]
          · rw [if_neg (fun hroom => hn ((grCursor_neg_iff hG).mp hroom.2))]
            have hregs : grCursor G n = grCursor G (n + 1) := by
              rw [grCursor, grCursor, show G - n = G - (n + 1) by omega]
            cases i with
            | zero =>
                obtain rfl : p = t := by simpa using h
                rw [List.getElem?_cons_zero, stackIndex e (by omega) (by omega), generalWord]
                simp [before, hn]
            | succ i =>
                rw [hcount] at hsmall ⊢
                rw [List.getElem?_cons_succ, stackCursor_add e (by omega), hregs,
                  ih (n + 1) (by simpa using h) hsmall]

end JniProbe
