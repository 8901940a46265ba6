import JniProbe.Lib.GoText

/-!
Number formatting of Go's `strconv` and `fmt`: integers in base ten and
sixteen, one rune as UTF-8, the shortest decimal that reads back as the same
binary floating-point number, and a fixed number of decimals. Floating-point
values are exact fractions of natural numbers here, so every function is
computable and rounds as the documentation says.
-/

namespace GoFormat

open GoText

def digits (base n : Nat) : Bytes := (Nat.toDigits base n).map (fun c => c.toNat.toUInt8)

def formatUint (v : UInt64) (base : Nat) : Bytes := digits base v.toNat

def formatInt (i : Int) : Bytes :=
  match i with
  | .ofNat n => digits 10 n
  | .negSucc n => str "-" ++ digits 10 (n + 1)

/-- `"0x" + strconv.FormatUint(v, 16)`, also what `0x%x` prints. -/
def hex (v : UInt64) : Bytes := str "0x" ++ formatUint v 16

def formatBool (b : Bool) : Bytes := if b then str "true" else str "false"

/-- `%c`: the UTF-8 encoding of a rune of the basic plane. A surrogate is no
rune and is printed as the replacement character. -/
def formatRune (r : Nat) : Bytes :=
  if 0xD800 ≤ r ∧ r ≤ 0xDFFF then [0xEF, 0xBF, 0xBD]
  else String.utf8EncodeChar (Char.ofNat r)

theorem hasPrefix_hex (v : UInt64) : hasPrefix (hex v) (str "0x") = true := by
  rw [hasPrefix_iff]
  exact List.prefix_append _ _

theorem hex_ne_nil (v : UInt64) : hex v ≠ [] := by
  intro h
  have hlen := congrArg List.length h
  simp [hex, str] at hlen

/-! ### Binary floating point -/

/-- Widths of the fraction and exponent fields of an IEEE 754 format. -/
structure FloatFormat where
  mantBits : Nat
  expBits : Nat

def float32 : FloatFormat := ⟨23, 8⟩

def float64 : FloatFormat := ⟨52, 11⟩

/-- The digits `d₁d₂…` and the position `dp` of the decimal point of the
number `0.d₁d₂… × 10^dp`. -/
structure Decimal where
  digits : Bytes
  dp : Int

def stripTrailingZeros (ds : Bytes) : Bytes := (ds.reverse.dropWhile (· == 48)).reverse

/-- The `k` with `10^(k-1) ≤ num/den < 10^k`. -/
def decimalPoint (num den : Nat) : Int :=
  if den ≤ num then (Nat.toDigits 10 (num / den)).length
  else
    match (List.range 400).find? (fun j => den ≤ num * 10 ^ (j + 1)) with
    | some j => -(j : Int)
    | none => 0

/-- Rounding to `n` digits that stays between the neighbours' midpoints `lo`
and `hi`: down, up, or to the nearest when both directions are allowed. -/
def roundWithin (lo v hi den : Nat) (inclusive : Bool) (k : Int) (n : Nat) : Option Nat :=
  let up := 10 ^ ((n : Int) - k).toNat
  let b := den * 10 ^ (k - (n : Int)).toNat
  let d := v * up / b
  let okDown := if inclusive then lo * up ≤ d * b else lo * up < d * b
  let okUp := if inclusive then (d + 1) * b ≤ hi * up else (d + 1) * b < hi * up
  if okDown ∧ okUp then
    let twice := 2 * (v * up - d * b)
    if twice < b ∨ (twice = b ∧ d % 2 = 0) then some d else some (d + 1)
  else if okDown then some d
  else if okUp then some (d + 1)
  else none

/-- The shortest digit string inside the rounding interval of `mant × 2^exp`. -/
def shortest (mant : Nat) (exp : Int) (evenSpacing : Bool) : Decimal :=
  let scale := 2 ^ (exp - 2).toNat
  let den := 2 ^ (2 - exp).toNat
  let v := 4 * mant * scale
  let hi := (4 * mant + 2) * scale
  let lo := (if evenSpacing then 4 * mant - 2 else 4 * mant - 1) * scale
  let k := decimalPoint v den
  let found := (List.range 18).findSome? (fun i =>
    (roundWithin lo v hi den (mant % 2 == 0) k (i + 1)).map (fun d => (i + 1, d)))
  match found with
  | none => ⟨[], 0⟩
  | some (n, d) =>
    let ds := GoFormat.digits 10 d
    ⟨stripTrailingZeros ds, k + ((ds.length : Int) - n)⟩

/-- `%e` with all digits of the decimal and an exponent of at least two digits. -/
def fmtE (d : Decimal) : Bytes :=
  let exp := d.dp - 1
  let mantissa :=
    match d.digits with
    | [] => str "0"
    | [c] => [c]
    | c :: rest => c :: (str "." ++ rest)
  let sign := if exp < 0 then str "-" else str "+"
  let ds := GoFormat.digits 10 exp.natAbs
  mantissa ++ str "e" ++ sign ++ (if ds.length < 2 then str "0" ++ ds else ds)

/-- `%f` with exactly the digits of the decimal. -/
def fmtF (d : Decimal) : Bytes :=
  let whole :=
    if 0 < d.dp then
      d.digits.take d.dp.toNat ++ List.replicate (d.dp.toNat - d.digits.length) 48
    else str "0"
  let frac := List.replicate (-d.dp).toNat 48 ++ d.digits.drop d.dp.toNat
  if (d.digits.length : Int) ≤ d.dp then whole else whole ++ str "." ++ frac

/-- `strconv.FormatFloat(f, 'g', -1, bitSize)` on the bits of `f`. -/
def formatFloat (fmt : FloatFormat) (bits : Nat) : Bytes :=
  let frac := bits % 2 ^ fmt.mantBits
  let expField := bits / 2 ^ fmt.mantBits % 2 ^ fmt.expBits
  let neg := bits / 2 ^ (fmt.mantBits + fmt.expBits) % 2 == 1
  let sign := if neg then str "-" else []
  if expField = 2 ^ fmt.expBits - 1 then
    if frac ≠ 0 then str "NaN" else if neg then str "-Inf" else str "+Inf"
  else if expField = 0 ∧ frac = 0 then sign ++ str "0"
  else
    let bias : Int := 2 ^ (fmt.expBits - 1) - 1
    let mant := if expField = 0 then frac else frac + 2 ^ fmt.mantBits
    let exp : Int := (max expField 1 : Nat) - bias - fmt.mantBits
    let d := shortest mant exp (frac ≠ 0 || expField ≤ 1)
    sign ++ (if d.dp - 1 < -4 ∨ 6 ≤ d.dp - 1 then fmtE d else fmtF d)

/-- Round half to even: the integer nearest to `num/den`. -/
def roundEven (num den : Nat) : Nat :=
  let q := num / den
  let twice := 2 * (num % den)
  if twice < den ∨ (twice = den ∧ q % 2 = 0) then q else q + 1

/-- The double nearest to a positive fraction, as a fraction again. -/
def toDouble (num den : Nat) : Nat × Nat :=
  if num = 0 then (0, 1)
  else
    let s₀ : Int := 52 - (Nat.log2 num : Int) + Nat.log2 den
    let short := num * 2 ^ s₀.toNat / (den * 2 ^ (-s₀).toNat) < 2 ^ 52
    let s := if short then s₀ + 1 else s₀
    let m := roundEven (num * 2 ^ s.toNat) (den * 2 ^ (-s).toNat)
    (m * 2 ^ (-s).toNat, 2 ^ s.toNat)

/-- `%.3f` of a fraction. -/
def fixed3 (num den : Nat) : Bytes :=
  let q := roundEven (num * 1000) den
  let frac := GoFormat.digits 10 (q % 1000)
  GoFormat.digits 10 (q / 1000) ++ str "." ++ List.replicate (3 - frac.length) 48 ++ frac

/-- `fmt.Sprintf("%.3f", float64(ns)/1e6)`: both the conversion and the
division round to a double before the decimals are taken. -/
def millis (ns : UInt64) : Bytes :=
  let f := toDouble ns.toNat 1
  let q := toDouble f.1 (f.2 * 1000000)
  fixed3 q.1 q.2

end GoFormat
