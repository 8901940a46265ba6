import JniProbe.Lib.GoText

/-!
`encoding/json` as far as a document is decoded into `map[string]string`. A
text must be valid JSON as a whole; then only its shape counts: members whose
values are strings or null. Strings are scanned first and unquoted after.
-/

namespace GoJson

open GoText

def isBlank (c : UInt8) : Bool := c = 32 || c = 9 || c = 10 || c = 13

def skipBlank (s : Bytes) : Bytes := s.dropWhile isBlank

def isDigit (c : UInt8) : Bool := 48 ≤ c && c ≤ 57

def isHex (c : UInt8) : Bool :=
  isDigit c || (97 ≤ c && c ≤ 102) || (65 ≤ c && c ≤ 70)

/-! ### Strings -/

/-- Where the scanner is inside a string: between characters, behind a
backslash, or with some hex digits of `\u` still to come. -/
inductive StringState
  | plain
  | escape
  | hex (left : Nat)

/-- The bytes up to the closing quote, and those behind it. -/
def scanString : StringState → Bytes → Option (Bytes × Bytes)
  | _, [] => none
  | .plain, c :: rest =>
      if c = 34 then some ([], rest)
      else if c = 92 then (scanString .escape rest).map (fun r => (c :: r.1, r.2))
      else if c < 32 then none
      else (scanString .plain rest).map (fun r => (c :: r.1, r.2))
  | .escape, c :: rest =>
      if (str "bfnrt\\/\"").contains c then
        (scanString .plain rest).map (fun r => (c :: r.1, r.2))
      else if c = 117 then (scanString (.hex 3) rest).map (fun r => (c :: r.1, r.2))
      else none
  | .hex left, c :: rest =>
      if isHex c then
        (scanString (match left with | 0 => .plain | n + 1 => .hex n) rest).map
          (fun r => (c :: r.1, r.2))
      else none

def hexValue (c : UInt8) : Nat :=
  if isDigit c then c.toNat - 48 else (c ||| 0x20).toNat - 97 + 10

/-- The number behind `\u`. -/
def getu4 (s : Bytes) : Nat := (s.take 4).foldl (fun n c => 16 * n + hexValue c) 0

/-- The second half of a surrogate pair, written right behind the first. -/
def lowSurrogate (s : Bytes) : Option Nat :=
  match s with
  | 92 :: 117 :: digits =>
      if 4 ≤ digits.length ∧ (digits.take 4).all isHex ∧ 0xDC00 ≤ getu4 digits ∧
          getu4 digits ≤ 0xDFFF then some (getu4 digits)
      else none
  | _ => none

def replacement : Bytes := [0xEF, 0xBF, 0xBD]

def encodeRune (r : Nat) : Bytes := String.utf8EncodeChar (Char.ofNat r)

/-- The character that a backslash and a letter stand for. -/
def unescape (c : UInt8) : UInt8 :=
  if c = 98 then 8 else if c = 102 then 12 else if c = 110 then 10 else if c = 114 then 13
  else if c = 116 then 9 else c

def isContinuation (c : UInt8) : Bool := 0x80 ≤ c && c ≤ 0xBF

/-- The length of the valid encoding of a rune from `U+0080` on, or 0. -/
def runeLen (s : Bytes) : Nat :=
  match s with
  | a :: b :: rest =>
      if 0xC2 ≤ a && a ≤ 0xDF then (if isContinuation b then 2 else 0)
      else
        match rest with
        | [] => 0
        | c :: rest =>
            if 0xE0 ≤ a && a ≤ 0xEF then
              let lowest : UInt8 := if a = 0xE0 then 0xA0 else 0x80
              let highest : UInt8 := if a = 0xED then 0x9F else 0xBF
              if lowest ≤ b && b ≤ highest && isContinuation c then 3 else 0
            else
              match rest with
              | [] => 0
              | d :: _ =>
                  let lowest : UInt8 := if a = 0xF0 then 0x90 else 0x80
                  let highest : UInt8 := if a = 0xF4 then 0x8F else 0xBF
                  if 0xF0 ≤ a && a ≤ 0xF4 && lowest ≤ b && b ≤ highest && isContinuation c &&
                      isContinuation d then 4
                  else 0
  | _ => 0

/-- Replaces escapes, and what is not UTF-8, in a scanned string; the first
number of bytes belong to something already replaced. -/
def unquoteFrom : Nat → Bytes → Bytes
  | _, [] => []
  | skip + 1, _ :: rest => unquoteFrom skip rest
  | 0, c :: rest =>
      if c = 92 then
        match rest.head? with
        | none => []
        | some e =>
            if e = 117 then
              let r := getu4 (rest.drop 1)
              if 0xD800 ≤ r ∧ r ≤ 0xDFFF then
                match lowSurrogate (rest.drop 5) with
                | some low =>
                    if r ≤ 0xDBFF then
                      encodeRune (0x10000 + (r - 0xD800) * 0x400 + (low - 0xDC00)) ++
                        unquoteFrom 11 rest
                    else replacement ++ unquoteFrom 5 rest
                | none => replacement ++ unquoteFrom 5 rest
              else encodeRune r ++ unquoteFrom 5 rest
            else unescape e :: unquoteFrom 1 rest
      else if c < 0x80 then c :: unquoteFrom 0 rest
      else
        match runeLen (c :: rest) with
        | 0 => replacement ++ unquoteFrom 0 rest
        | n + 1 => (c :: rest).take (n + 1) ++ unquoteFrom n rest

def unquote (s : Bytes) : Bytes := unquoteFrom 0 s

/-! ### Numbers and literals -/

def someDigits (s : Bytes) : Option Bytes :=
  match s with
  | c :: rest => if isDigit c then some (rest.dropWhile isDigit) else none
  | [] => none

def exponent (s : Bytes) : Option Bytes :=
  match s with
  | c :: rest =>
      if c = 101 ∨ c = 69 then
        match rest with
        | 43 :: rest => someDigits rest
        | 45 :: rest => someDigits rest
        | _ => someDigits rest
      else some s
  | [] => some []

def fraction (s : Bytes) : Option Bytes :=
  match s with
  | 46 :: rest => (someDigits rest).bind exponent
  | _ => exponent s

def number (s : Bytes) : Option Bytes :=
  let s :=
    match s with
    | 45 :: rest => rest
    | _ => s
  match s with
  | 48 :: rest => fraction rest
  | _ => (someDigits s).bind fraction

def literal (word s : Bytes) : Option Bytes :=
  if hasPrefix s word then some (s.drop word.length) else none

/-! ### Values -/

/-- What a value is to a variable of type `string`. -/
inductive Kind
  | text (s : Bytes)
  | null
  | other

def maxNestingDepth : Nat := 10000

mutual

/-- A value at its first byte, with the nesting still allowed. -/
def value : Nat → Nat → Bytes → Option (Kind × Bytes)
  | 0, _, _ => none
  | _ + 1, _, [] => none
  | fuel + 1, depth, c :: rest =>
      if c = 123 then
        if depth = 0 then none
        else (object fuel (depth - 1) (skipBlank rest)).map (fun r => (.other, r.2))
      else if c = 91 then
        if depth = 0 then none
        else
          match skipBlank rest with
          | 93 :: rest => some (.other, rest)
          | rest => (elements fuel (depth - 1) rest).map (fun rest => (.other, rest))
      else if c = 34 then
        (scanString .plain rest).map (fun r => (.text (unquote r.1), r.2))
      else if c = 110 then (literal (str "null") (c :: rest)).map (fun rest => (.null, rest))
      else if c = 116 then (literal (str "true") (c :: rest)).map (fun rest => (.other, rest))
      else if c = 102 then (literal (str "false") (c :: rest)).map (fun rest => (.other, rest))
      else (number (c :: rest)).map (fun rest => (.other, rest))

/-- An object behind its opening brace. -/
def object : Nat → Nat → Bytes → Option (List (Bytes × Kind) × Bytes)
  | 0, _, _ => none
  | fuel + 1, depth, s =>
      match s with
      | 125 :: rest => some ([], rest)
      | s => members fuel depth s

/-- One member and those that follow it. -/
def members : Nat → Nat → Bytes → Option (List (Bytes × Kind) × Bytes)
  | 0, _, _ => none
  | fuel + 1, depth, s =>
      match s with
      | 34 :: rest =>
          match scanString .plain rest with
          | none => none
          | some (key, rest) =>
              match skipBlank rest with
              | 58 :: rest =>
                  match value fuel depth (skipBlank rest) with
                  | none => none
                  | some (kind, rest) =>
                      match skipBlank rest with
                      | 125 :: rest => some ([(unquote key, kind)], rest)
                      | 44 :: rest =>
                          (members fuel depth (skipBlank rest)).map
                            (fun r => ((unquote key, kind) :: r.1, r.2))
                      | _ => none
              | _ => none
      | _ => none

/-- One array element and those that follow it. -/
def elements : Nat → Nat → Bytes → Option Bytes
  | 0, _, _ => none
  | fuel + 1, depth, s =>
      match value fuel depth s with
      | none => none
      | some (_, rest) =>
          match skipBlank rest with
          | 93 :: rest => some rest
          | 44 :: rest => elements fuel depth (skipBlank rest)
          | _ => none

end

/-- A value of type `string`; null leaves it empty. -/
def Kind.toString? : Kind → Option Bytes
  | .text s => some s
  | .null => some []
  | .other => none

/-- `json.Unmarshal` into a `map[string]string`, as the members in their order. -/
def unmarshal (raw : Bytes) : Option (List (Bytes × Bytes)) :=
  let s := skipBlank raw
  match s with
  | 123 :: rest =>
      match object (2 * raw.length + 2) (maxNestingDepth - 1) (skipBlank rest) with
      | none => none
      | some (ms, rest) =>
          if skipBlank rest = [] then
            ms.mapM (fun m => m.2.toString?.map (fun v => (m.1, v)))
          else none
  | s =>
      match value (2 * raw.length + 2) maxNestingDepth s with
      | some (.null, rest) => if skipBlank rest = [] then some [] else none
      | _ => none

/-! ### Members with plain text -/

/-- Bytes that stand for themselves inside a string. -/
def isPlain (c : UInt8) : Bool := 32 ≤ c && c < 0x80 && c ≠ 34 && c ≠ 92

def quoted (s : Bytes) : Bytes := str "\"" ++ s ++ str "\""

theorem scanString_plain {s : Bytes} (h : ∀ c ∈ s, isPlain c = true) (rest : Bytes) :
    scanString .plain (s ++ 34 :: rest) = some (s, rest) := by
  induction s with
  | nil => rfl
  | cons c s ih =>
      have hc := h c List.mem_cons_self
      simp only [isPlain, Bool.and_eq_true, decide_eq_true_eq, ne_eq, decide_not,
        Bool.not_eq_true', decide_eq_false_iff_not] at hc
      obtain ⟨⟨⟨hlow, -⟩, hquote⟩, hslash⟩ := hc
      have hcontrol : ¬ c < 32 := UInt8.not_lt.mpr hlow
      rw [List.cons_append, scanString, if_neg hquote, if_neg hslash, if_neg hcontrol,
        ih (fun c' hc' => h c' (List.mem_cons_of_mem c hc'))]
      rfl

theorem unquote_plain {s : Bytes} (h : ∀ c ∈ s, isPlain c = true) : unquote s = s := by
  induction s with
  | nil => rfl
  | cons c s ih =>
      have hc := h c List.mem_cons_self
      simp only [isPlain, Bool.and_eq_true, decide_eq_true_eq, ne_eq, decide_not,
        Bool.not_eq_true', decide_eq_false_iff_not] at hc
      obtain ⟨⟨⟨-, hhigh⟩, -⟩, hslash⟩ := hc
      have hrest : unquoteFrom 0 s = s := ih (fun c' hc' => h c' (List.mem_cons_of_mem c hc'))
      rw [unquote, unquoteFrom, if_neg hslash, if_pos hhigh, hrest]

theorem skipBlank_append {ws : Bytes} (h : ws.all isBlank = true) {c : UInt8} {rest : Bytes}
    (hc : isBlank c = false) : skipBlank (ws ++ c :: rest) = c :: rest := by
  have hstop : skipBlank (c :: rest) = c :: rest := by
    rw [skipBlank, List.dropWhile_cons_of_neg (by rw [hc]; exact Bool.false_ne_true)]
  rw [skipBlank, List.dropWhile_append_of_pos (List.all_eq_true.mp h)]
  exact hstop

theorem value_quoted {s : Bytes} (h : ∀ c ∈ s, isPlain c = true) (fuel depth : Nat) (rest : Bytes) :
    value (fuel + 1) depth (quoted s ++ rest) = some (.text s, rest) := by
  have hquoted : quoted s ++ rest = 34 :: (s ++ 34 :: rest) := by
    simp only [quoted, List.append_assoc]
    rfl
  rw [hquoted, value, if_neg (by decide), if_neg (by decide), if_pos rfl, scanString_plain h,
    Option.map_some, unquote_plain h]

variable {key val : Bytes}

/-- A key, a colon and a value in quotes, up to what follows the value. -/
theorem members_quoted (hkey : ∀ c ∈ key, isPlain c = true) (hval : ∀ c ∈ val, isPlain c = true)
    (fuel depth : Nat) (rest : Bytes) :
    members (fuel + 2) depth (quoted key ++ str ": " ++ quoted val ++ rest) =
      match skipBlank rest with
      | 125 :: rest => some ([(key, .text val)], rest)
      | 44 :: rest =>
          (members (fuel + 1) depth (skipBlank rest)).map
            (fun r => ((key, .text val) :: r.1, r.2))
      | _ => none := by
  have htext : quoted key ++ str ": " ++ quoted val ++ rest =
      34 :: (key ++ 34 :: 58 :: 32 :: (quoted val ++ rest)) := by
    simp only [quoted, List.append_assoc]
    rfl
  have hcolon : skipBlank (58 :: 32 :: (quoted val ++ rest)) = 58 :: 32 :: (quoted val ++ rest) :=
    rfl
  have hvalue : skipBlank (32 :: (quoted val ++ rest)) = quoted val ++ rest := rfl
  rw [htext, members]
  simp only [scanString_plain hkey, hcolon, hvalue, value_quoted hval, unquote_plain hkey]

theorem members_last (hkey : ∀ c ∈ key, isPlain c = true) (hval : ∀ c ∈ val, isPlain c = true)
    {ws : Bytes} (hws : ws.all isBlank = true) (fuel depth : Nat) (rest : Bytes) :
    members (fuel + 2) depth (quoted key ++ str ": " ++ quoted val ++ (ws ++ 125 :: rest)) =
      some ([(key, .text val)], rest) := by
  rw [members_quoted hkey hval, skipBlank_append hws (by decide)]
  rfl

theorem members_more (hkey : ∀ c ∈ key, isPlain c = true) (hval : ∀ c ∈ val, isPlain c = true)
    (fuel depth : Nat) (more : Bytes) :
    members (fuel + 2) depth (quoted key ++ str ": " ++ quoted val ++ 44 :: more) =
      (members (fuel + 1) depth (skipBlank more)).map
        (fun r => ((key, .text val) :: r.1, r.2)) := by
  have hcomma : skipBlank (44 :: more) = 44 :: more := rfl
  rw [members_quoted hkey hval, hcomma]
  rfl

/-- An object that begins with a member. -/
theorem object_of_members {fuel depth : Nat} {s : Bytes} {r : List (Bytes × Kind) × Bytes}
    (h : members fuel depth s = some r) : object (fuel + 1) depth s = some r := by
  rw [object]
  · exact h
  · rintro rest rfl
    cases fuel with
    | zero => simp [members] at h
    | succ fuel => simp [members] at h

theorem unmarshal_object {rest rest' : Bytes} {ms : List (Bytes × Kind)}
    (hobject : object (2 * (123 :: rest).length + 2) (maxNestingDepth - 1) (skipBlank rest) =
      some (ms, rest')) (hend : skipBlank rest' = []) :
    unmarshal (123 :: rest) = ms.mapM (fun m => m.2.toString?.map (fun v => (m.1, v))) := by
  have hopen : skipBlank (123 :: rest) = 123 :: rest := rfl
  rw [unmarshal, hopen]
  simp only [hobject, if_pos hend]

end GoJson
