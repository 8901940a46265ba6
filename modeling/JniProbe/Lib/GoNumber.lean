import JniProbe.Lib.GoFormat

/-!
Reading numbers as Go's `strconv` does: digits in a base from 2 to 36, a base
prefix where the base is left open, overflow found digit by digit.
-/

namespace GoNumber

open GoText GoFormat

inductive NumError
  | invalid
  | outOfRange
  deriving DecidableEq, Repr

def lower (c : UInt8) : UInt8 := c ||| 0x20

/-- The value of a letter or a decimal digit, whatever the base. -/
def digitValue (c : UInt8) : Option Nat :=
  if 48 ≤ c ∧ c ≤ 57 then some (c.toNat - 48)
  else if 97 ≤ lower c ∧ lower c ≤ 122 then some ((lower c).toNat - 97 + 10)
  else none

/-- The loop over the digits. The first digit that does not fit decides the error. -/
def parseDigits (base : Nat) (underscores : Bool) : Bytes → Nat → Except NumError Nat
  | [], n => .ok n
  | c :: rest, n =>
      if underscores = true ∧ c = 95 then parseDigits base underscores rest n
      else
        match digitValue c with
        | none => .error .invalid
        | some d =>
            if base ≤ d then .error .invalid
            else if 2 ^ 64 ≤ n * base + d then .error .outOfRange
            else parseDigits base underscores rest (n * base + d)

/-- What the last character looked at by `underscoreOK` was. -/
inductive Saw
  | start
  | digit
  | underscore
  | other
  deriving DecidableEq

def underscoreLoop (hex : Bool) : Bytes → Saw → Bool
  | [], saw => saw ≠ .underscore
  | c :: rest, saw =>
      if (48 ≤ c ∧ c ≤ 57) ∨ (hex = true ∧ 97 ≤ lower c ∧ lower c ≤ 102) then
        underscoreLoop hex rest .digit
      else if c = 95 then
        if saw ≠ .digit then false else underscoreLoop hex rest .underscore
      else if saw = .underscore then false
      else underscoreLoop hex rest .other

/-- Underscores separate digits, and may follow a base prefix. -/
def underscoreOK (s : Bytes) : Bool :=
  let s :=
    match s with
    | c :: rest => if c = 45 ∨ c = 43 then rest else s
    | [] => s
  match s with
  | 48 :: c :: rest =>
      if lower c = 98 ∨ lower c = 111 ∨ lower c = 120 then
        underscoreLoop (lower c = 120) rest .digit
      else underscoreLoop false s .start
  | _ => underscoreLoop false s .start

/-- The base that a prefix names, and the digits behind it. -/
def basePrefix (s : Bytes) : Nat × Bytes :=
  match s with
  | 48 :: c :: d :: rest =>
      if lower c = 98 then (2, d :: rest)
      else if lower c = 111 then (8, d :: rest)
      else if lower c = 120 then (16, d :: rest)
      else (8, c :: d :: rest)
  | 48 :: rest => (8, rest)
  | _ => (10, s)

/-- `strconv.ParseUint(s, base, 64)`; base 0 leaves the base to the prefix. -/
def parseUint (s : Bytes) (base : Nat) : Except NumError UInt64 :=
  if s = [] then .error .invalid
  else if base = 0 then
    match parseDigits (basePrefix s).1 true (basePrefix s).2 0 with
    | .error e => .error e
    | .ok n => if s.contains 95 ∧ underscoreOK s = false then .error .invalid else .ok n.toUInt64
  else
    match parseDigits base false s 0 with
    | .error e => .error e
    | .ok n => .ok n.toUInt64

/-- The number returned beside the error, for callers that ignore the error. -/
def parseUintValue (s : Bytes) (base : Nat) : UInt64 :=
  match parseUint s base with
  | .ok n => n
  | .error .invalid => 0
  | .error .outOfRange => 0xFFFFFFFFFFFFFFFF

/-- `strconv.Atoi`, without the reason of a failure. -/
def atoi (s : Bytes) : Option Int :=
  let neg := s.head? = some 45
  let magnitude := if s.head? = some 45 ∨ s.head? = some 43 then s.tail else s
  match parseUint magnitude 10 with
  | .error _ => none
  | .ok n =>
      if neg then (if n.toNat ≤ 2 ^ 63 then some (-(n.toNat : Int)) else none)
      else if n.toNat < 2 ^ 63 then some n.toNat else none

/-- `strconv.ParseInt(s, base, 64)`, without the reason of a failure. -/
def parseInt (s : Bytes) (base : Nat) : Option Int :=
  let neg := s.head? = some 45
  let magnitude := if s.head? = some 45 ∨ s.head? = some 43 then s.tail else s
  match parseUint magnitude base with
  | .error _ => none
  | .ok n =>
      if neg then (if n.toNat ≤ 2 ^ 63 then some (-(n.toNat : Int)) else none)
      else if n.toNat < 2 ^ 63 then some n.toNat else none

/-! ### Printed numbers are read back -/

theorem parseDigits_append (base : Nat) (underscores : Bool) (s t : Bytes) (n m : Nat)
    (h : parseDigits base underscores s n = .ok m) :
    parseDigits base underscores (s ++ t) n = parseDigits base underscores t m := by
  induction s generalizing n with
  | nil =>
      rw [parseDigits, Except.ok.injEq] at h
      rw [List.nil_append, h]
  | cons c rest ih =>
      rw [List.cons_append]
      rw [parseDigits] at h ⊢
      split
      next hskip =>
        rw [if_pos hskip] at h
        exact ih n h
      next hskip =>
        rw [if_neg hskip] at h
        cases hvalue : digitValue c with
        | none => rw [hvalue] at h; cases h
        | some d =>
            simp only [hvalue] at h ⊢
            split at h
            · cases h
            next hbase =>
              rw [if_neg hbase]
              split at h
              · cases h
              next hfits =>
                rw [if_neg hfits]
                exact ih _ h

/-- The byte of a digit. -/
def digitByte (d : Nat) : UInt8 := d.digitChar.toNat.toUInt8

theorem digitValue_digitByte {d : Nat} (h : d < 16) : digitValue (digitByte d) = some d := by
  have hall : ∀ d : Fin 16, digitValue (digitByte d) = some d.val := by decide
  exact hall ⟨d, h⟩

theorem digitByte_ne_underscore {d : Nat} (h : d < 16) : digitByte d ≠ 95 := by
  have hall : ∀ d : Fin 16, digitByte d ≠ 95 := by decide
  exact hall ⟨d, h⟩

theorem parseDigits_digit {base : Nat} (hbase : base ≤ 16) (underscores : Bool) {n d : Nat}
    (hd : d < base) (hfits : n * base + d < 2 ^ 64) :
    parseDigits base underscores [digitByte d] n = .ok (n * base + d) := by
  have hskip : ¬ (underscores = true ∧ digitByte d = 95) :=
    fun h => digitByte_ne_underscore (Nat.lt_of_lt_of_le hd hbase) h.2
  rw [parseDigits, if_neg hskip, digitValue_digitByte (Nat.lt_of_lt_of_le hd hbase)]
  simp only [if_neg (Nat.not_le.mpr hd), if_neg (Nat.not_le.mpr hfits), parseDigits]

theorem digits_of_lt {base n : Nat} (h : n < base) : digits base n = [digitByte n] := by
  rw [digits, Nat.toDigits_of_lt_base h]
  rfl

theorem digits_of_ge {base n : Nat} (hbase : 1 < base) (h : base ≤ n) :
    digits base n = digits base (n / base) ++ [digitByte (n % base)] := by
  rw [digits, Nat.toDigits_of_base_le hbase h, List.map_append]
  rfl

/-- Digits that were printed in a base are read in it. -/
theorem parseDigits_digits {base : Nat} (hbase : 1 < base) (hbase' : base ≤ 16)
    (underscores : Bool) {n : Nat} (hn : n < 2 ^ 64) :
    parseDigits base underscores (digits base n) 0 = .ok n := by
  induction n using Nat.strong_induction_on with
  | _ n ih =>
      rcases Nat.lt_or_ge n base with hlt | hge
      · have hdigit := parseDigits_digit (n := 0) hbase' underscores hlt (by omega)
        rwa [Nat.zero_mul, Nat.zero_add, ← digits_of_lt hlt] at hdigit
      · have hsmaller : n / base < n := Nat.div_lt_self (by omega) hbase
        have hfront := ih (n / base) hsmaller (by omega)
        have hsum : n / base * base + n % base = n := Nat.div_add_mod' n base
        rw [digits_of_ge hbase hge, parseDigits_append _ _ _ _ _ _ hfront,
          parseDigits_digit hbase' underscores (Nat.mod_lt n (by omega)) (by omega), hsum]

theorem digits_ne_nil (base n : Nat) : digits base n ≠ [] := by
  rw [digits, ne_eq, List.map_eq_nil_iff]
  exact Nat.toDigits_ne_nil

/-- Every byte of a printed number is the byte of a digit. -/
theorem mem_digits {base n : Nat} (hbase : 1 < base) {c : UInt8} (h : c ∈ digits base n) :
    ∃ d < base, c = digitByte d := by
  induction n using Nat.strong_induction_on with
  | _ n ih =>
      rcases Nat.lt_or_ge n base with hlt | hge
      · rw [digits_of_lt hlt, List.mem_singleton] at h
        exact ⟨n, hlt, h⟩
      · rw [digits_of_ge hbase hge, List.mem_append, List.mem_singleton] at h
        rcases h with hfront | hlast
        · exact ih (n / base) (Nat.div_lt_self (by omega) hbase) hfront
        · exact ⟨n % base, Nat.mod_lt n (by omega), hlast⟩

/-- A decimal number is read by `Atoi`. -/
theorem atoi_digits {n : Nat} (hn : n < 2 ^ 63) : atoi (digits 10 n) = some (n : Int) := by
  obtain ⟨c, rest, hcons⟩ := List.exists_cons_of_ne_nil (digits_ne_nil 10 n)
  obtain ⟨d, hd, hc⟩ : ∃ d < 10, c = digitByte d :=
    mem_digits (n := n) (by decide) (by rw [hcons]; exact List.mem_cons_self)
  have hsign : c ≠ 45 ∧ c ≠ 43 := by
    have hall : ∀ d : Fin 10, digitByte d ≠ 45 ∧ digitByte d ≠ 43 := by decide
    rw [hc]
    exact hall ⟨d, hd⟩
  have hneg : ¬ (digits 10 n).head? = some 45 := by simp [hcons, hsign.1]
  have hplus : ¬ (digits 10 n).head? = some 43 := by simp [hcons, hsign.2]
  have hparse : parseUint (digits 10 n) 10 = .ok n.toUInt64 := by
    rw [parseUint, if_neg (digits_ne_nil 10 n), if_neg (by decide),
      parseDigits_digits (by decide) (by decide) false (by omega)]
  have hvalue : n.toUInt64.toNat = n := by
    rw [Nat.toUInt64_eq, UInt64.toNat_ofNat']
    omega
  simp only [atoi, hneg, hplus, or_self, if_false, hparse, hvalue, if_pos hn]

/-- `%0<width>x` and its like: the number with zeroes in front of it. -/
def padded (base width n : Nat) : Bytes :=
  List.replicate (width - (digits base n).length) 48 ++ digits base n

theorem parseDigits_zeroes {base : Nat} (hbase : 0 < base) (hbase' : base ≤ 16)
    (underscores : Bool) (k : Nat) :
    parseDigits base underscores (List.replicate k 48) 0 = .ok 0 := by
  induction k with
  | zero => rfl
  | succ k ih =>
      have hzero := parseDigits_digit (n := 0) (d := 0) hbase' underscores hbase (by omega)
      rw [Nat.zero_mul, Nat.add_zero] at hzero
      have happend := parseDigits_append _ _ _ (List.replicate k 48) _ _ hzero
      rw [ih] at happend
      exact happend

theorem parseUint_padded {base : Nat} (hbase : 1 < base) (hbase' : base ≤ 16) (width : Nat)
    (v : UInt64) : parseUint (padded base width v.toNat) base = .ok v := by
  have hne : padded base width v.toNat ≠ [] := by
    intro h
    exact digits_ne_nil base v.toNat (List.append_eq_nil_iff.mp h).2
  have hparse : parseDigits base false (padded base width v.toNat) 0 = .ok v.toNat := by
    rw [padded, parseDigits_append _ _ _ _ _ _ (parseDigits_zeroes (by omega) hbase' false _),
      parseDigits_digits hbase hbase' false v.toNat_lt]
  have hvalue : v.toNat.toUInt64 = v := UInt64.ofNat_toNat
  have hopen : ¬ base = 0 := by omega
  rw [parseUint, if_neg hne, if_neg hopen, hparse]
  simp only [hvalue]

/-- Padding zeroes are bytes of digits too. -/
theorem mem_padded {base width n : Nat} (hbase : 1 < base) {c : UInt8}
    (h : c ∈ padded base width n) : ∃ d < base, c = digitByte d := by
  rcases List.mem_append.mp h with hzero | hdigit
  · exact ⟨0, by omega, List.eq_of_mem_replicate hzero⟩
  · exact mem_digits hbase hdigit

theorem basePrefix_hex (v : UInt64) : basePrefix (hex v) = (16, formatUint v 16) := by
  obtain ⟨c, rest, hcons⟩ := List.exists_cons_of_ne_nil (digits_ne_nil 16 v.toNat)
  have hhex : hex v = 48 :: 120 :: c :: rest := by
    rw [hex, formatUint, hcons]
    rfl
  rw [hhex, formatUint, hcons]
  rfl

theorem hex_no_underscore (v : UInt64) : (hex v).contains 95 = false := by
  rw [← Bool.not_eq_true, List.contains_iff_mem, hex, List.mem_append]
  rintro (hfront | hdigit)
  · revert hfront
    decide
  · obtain ⟨d, hd, hc⟩ := mem_digits (by decide) hdigit
    exact digitByte_ne_underscore hd hc.symm

/-- What `0x%x` prints is read by `ParseUint` when the base is left open. -/
theorem parseUint_hex (v : UInt64) : parseUint (hex v) 0 = .ok v := by
  have hbase : 1 < 16 := by decide
  have hparse := parseDigits_digits hbase (Nat.le_refl 16) true v.toNat_lt
  have hvalue : v.toNat.toUInt64 = v := UInt64.ofNat_toNat
  rw [parseUint, if_neg (hex_ne_nil v), if_pos rfl, basePrefix_hex, hex_no_underscore, formatUint,
    hparse]
  simp only [Bool.false_eq_true, false_and, if_false, hvalue]

theorem digits_no_underscore (n : Nat) : (digits 10 n).contains 95 = false := by
  rw [← Bool.not_eq_true, List.contains_iff_mem]
  intro hdigit
  obtain ⟨d, hd, hc⟩ := mem_digits (by decide) hdigit
  exact digitByte_ne_underscore (by omega) hc.symm

/-- A decimal number starts with a zero only if it is zero. -/
theorem head_digits {n : Nat} (hn : n ≠ 0) : (digits 10 n).head? ≠ some 48 := by
  induction n using Nat.strong_induction_on with
  | _ n ih =>
      rcases Nat.lt_or_ge n 10 with hlt | hge
      · have hall : ∀ d : Fin 10, d.val ≠ 0 → digitByte d ≠ 48 := by decide
        rw [digits_of_lt hlt, List.head?_cons, ne_eq, Option.some.injEq]
        exact hall ⟨n, hlt⟩ hn
      · have hfront := ih (n / 10) (by omega) (by omega)
        rw [digits_of_ge (by decide) hge, List.head?_append]
        cases hhead : (digits 10 (n / 10)).head? with
        | none => exact absurd (List.head?_eq_none_iff.mp hhead) (digits_ne_nil 10 _)
        | some c =>
            rw [hhead] at hfront
            exact hfront

theorem basePrefix_digits {n : Nat} (hn : n ≠ 0) :
    basePrefix (digits 10 n) = (10, digits 10 n) := by
  have hhead := head_digits hn
  cases hdigits : digits 10 n with
  | nil => exact absurd hdigits (digits_ne_nil 10 n)
  | cons c rest =>
      rw [hdigits, List.head?_cons, ne_eq, Option.some.injEq] at hhead
      unfold basePrefix
      split
      · rename_i heq
        exact absurd (List.cons.inj heq).1 hhead
      · rename_i heq
        exact absurd (List.cons.inj heq).1 hhead
      · rfl

/-- A decimal number is read as one also when the base is left open. -/
theorem parseUint_digits {n : Nat} (hn : n < 2 ^ 64) :
    parseUint (digits 10 n) 0 = .ok n.toUInt64 := by
  rcases Nat.eq_zero_or_pos n with rfl | hpos
  · decide
  · have hparse : parseDigits 10 true (digits 10 n) 0 = .ok n :=
      parseDigits_digits (by decide) (by decide) true hn
    rw [parseUint, if_neg (digits_ne_nil 10 n), if_pos rfl, basePrefix_digits hpos.ne', hparse,
      digits_no_underscore]
    simp only [Bool.false_eq_true, false_and, if_false]

theorem digits_head_sign (n : Nat) :
    (digits 10 n).head? ≠ some 45 ∧ (digits 10 n).head? ≠ some 43 := by
  obtain ⟨c, rest, hcons⟩ := List.exists_cons_of_ne_nil (digits_ne_nil 10 n)
  obtain ⟨d, hd, rfl⟩ : ∃ d < 10, c = digitByte d :=
    mem_digits (n := n) (by decide) (by rw [hcons]; exact List.mem_cons_self)
  have hall : ∀ d : Fin 10, digitByte d ≠ 45 ∧ digitByte d ≠ 43 := by decide
  simpa [hcons] using hall ⟨d, hd⟩

/-- What `%d` prints of an `int` is read by `ParseInt` when the base is left open. -/
theorem parseInt_formatInt {i : Int} (hlow : -2 ^ 63 ≤ i) (hhigh : i < 2 ^ 63) :
    parseInt (formatInt i) 0 = some i := by
  have hvalue {n : Nat} (hn : n < 2 ^ 64) : n.toUInt64.toNat = n := by
    rw [Nat.toUInt64_eq, UInt64.toNat_ofNat']
    omega
  cases i with
  | ofNat n =>
      have hlt : (n : Int) < 2 ^ 63 := hhigh
      have hn : n < 2 ^ 63 := by omega
      obtain ⟨hneg, hplus⟩ := digits_head_sign n
      simp only [parseInt, formatInt, hneg, hplus, or_self, if_false,
        parseUint_digits (n := n) (by omega), hvalue (n := n) (by omega), if_pos hn]
      rfl
  | negSucc n =>
      have hn : n + 1 ≤ 2 ^ 63 := by omega
      have hhead : (str "-" ++ digits 10 (n + 1)).head? = some 45 := rfl
      have htail : (str "-" ++ digits 10 (n + 1)).tail = digits 10 (n + 1) := rfl
      simp only [parseInt, formatInt, hhead, htail, true_or, if_true,
        parseUint_digits (n := n + 1) (by omega), hvalue (n := n + 1) (by omega), if_pos hn]
      rfl

end GoNumber
