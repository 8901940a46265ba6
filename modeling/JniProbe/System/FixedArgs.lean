import JniProbe.System.CallArgs

/-!
Arguments and results of the functions of the table themselves, which are not
variadic: what a value of a schema type is, how the compiler passes it, and
what its text is.
-/

namespace JniProbe

open GoText GoFormat Aapcs64

def isFloatType (t : Bytes) : Bool := t == str "jfloat" || t == str "jdouble"

namespace Arg

/-- The text of a number. -/
def text : Arg → Bytes
  | jboolean v => formatBool (v ≠ 0)
  | jbyte v => formatInt v.toInt
  | jchar v => str "'" ++ formatRune v.toNat ++ str "'"
  | jshort v => formatInt v.toInt
  | jint v => formatInt v.toInt
  | jlong v => formatInt v.toInt
  | jfloat bits => formatFloat float32 bits.toNat
  | jdouble bits => formatFloat float64 bits.toNat
  | ref v => hex v

/-- The value has the schema type. -/
def OfType (a : Arg) (t : Bytes) : Prop :=
  match a with
  | jboolean _ => t = str "jboolean"
  | jbyte _ => t = str "jbyte"
  | jchar _ => t = str "jchar"
  | jshort _ => t = str "jshort"
  | jint _ => t = str "jint" ∨ t = str "jsize"
  | jlong _ => t = str "jlong"
  | jfloat _ => t = str "jfloat"
  | jdouble _ => t = str "jdouble"
  | ref _ => isNumeric t = false

theorem OfType.isFp {a : Arg} {t : Bytes} (h : a.OfType t) : a.isFp = isFloatType t := by
  cases a with
  | jint v => rcases h with rfl | rfl <;> rfl
  | ref v =>
      have hnot : isFloatType t = true → isNumeric t = true := by
        simp only [isFloatType, Bool.or_eq_true, beq_iff_eq]
        rintro (rfl | rfl) <;> rfl
      cases hfloat : isFloatType t with
      | false => rfl
      | true =>
          have hnumeric : isNumeric t = false := h
          rw [hnot hfloat] at hnumeric
          cases hnumeric
  | _ =>
      obtain rfl := h
      rfl

end Arg

/-- The word that `fmtNumeric` is given holds the number, so the text is the number's. -/
theorem fmtNumeric_of_inUnion {a : Arg} {t : Bytes} (ht : a.OfType t)
    (hnumeric : isNumeric t = true) {w : UInt64} (h : a.InUnion w) : fmtNumeric t w = a.text := by
  cases a with
  | jboolean v =>
      obtain rfl := ht
      obtain rfl : w.toUInt8 = v := h
      have hlow : w &&& 0xff = w.toUInt8.toUInt64 := by
        apply UInt64.toNat_inj.mp
        simpa using Nat.and_two_pow_sub_one_eq_mod w.toNat 8
      have hzero : w.toUInt8.toUInt64 = 0 ↔ w.toUInt8 = 0 := by
        rw [← UInt64.toNat_inj, ← UInt8.toNat_inj, UInt8.toNat_toUInt64]
        rfl
      have htext : fmtNumeric (str "jboolean") w = fmtBoolean w := rfl
      rw [htext, fmtBoolean, hlow, Arg.text]
      simp only [ne_eq, hzero]
  | jbyte v =>
      obtain rfl := ht
      obtain rfl : w.toUInt8.toInt8 = v := h
      rfl
  | jchar v =>
      obtain rfl := ht
      obtain rfl : w.toUInt16 = v := h
      have hlow : (w &&& 0xffff).toNat = w.toUInt16.toNat := by
        simpa using Nat.and_two_pow_sub_one_eq_mod w.toNat 16
      have htext : fmtNumeric (str "jchar") w = fmtChar w := rfl
      rw [htext, fmtChar, hlow, Arg.text]
  | jshort v =>
      obtain rfl := ht
      obtain rfl : w.toUInt16.toInt16 = v := h
      rfl
  | jint v =>
      obtain rfl : w.toUInt32.toInt32 = v := h
      rcases ht with rfl | rfl <;> rfl
  | jlong v =>
      obtain rfl := ht
      obtain rfl : w.toInt64 = v := h
      rfl
  | jfloat bits =>
      obtain rfl := ht
      obtain rfl : w.toUInt32 = bits := h
      rfl
  | jdouble bits =>
      obtain rfl := ht
      obtain rfl : w = bits := h
      rfl
  | ref v =>
      have hnot : isNumeric t = false := ht
      rw [hnumeric] at hnot
      cases hnot

/-! ### Passing -/

/-- The arguments have the parameter types of the slot, one for each. -/
structure ArgsOf (slot : Nat) (args : List Arg) : Prop where
  length : args.length = (slotArgs slot).length
  types : ∀ (i : Nat) (a : Arg) (t : Bytes), args[i]? = some a → (slotArgs slot)[i]? = some t →
    a.OfType t

/-- Eight general and eight vector registers hold the arguments of a function
with a prototype; what is left of a register that an argument does not fill is
arbitrary. -/
def PassedFixed (args : List Arg) (contents : Place → UInt64) : Prop :=
  ∀ (i : Nat) (a : Arg) (p : Place), args[i]? = some a →
    (place 8 8 (args.map Arg.isFp))[i]? = some p → a.InUnion (contents p)

/-- A result is returned in the first register of its bank. -/
def Returned (r : Arg) (x0 v0 : UInt64) : Prop := r.InUnion (if r.isFp then v0 else x0)

/-- With no floating-point argument before it, an argument of the first eight
is in the general register of its own index. -/
theorem PassedFixed.register {args : List Arg} {contents : Place → UInt64}
    (h : PassedFixed args contents) {i : Nat} {a : Arg} (ha : args[i]? = some a) (hi : i < 8)
    (hgeneral : ∀ j ≤ i, (args.map Arg.isFp)[j]? = some false) : a.InUnion (contents (.gr i)) := by
  have hlen : i ≤ (args.map Arg.isFp).length := by
    have hlt := (List.getElem?_eq_some_iff.mp ha).1
    rw [List.length_map]
    omega
  obtain ⟨hfp, hgp⟩ := before_of_general hlen (fun j hj => hgeneral j (by omega))
  have hplace := place_general 8 8 (hgeneral i (Nat.le_refl i))
  rw [hfp, hgp, spot, if_pos hi] at hplace
  exact h i a (.gr i) ha hplace

end JniProbe
