import JniProbe.Lib.GoJson
import Mathlib.Data.List.Forall2
import Mathlib.Data.List.Infix

/-!
`json.Marshal` of a string, and of a `map[string]string` with one member. A
string is taken apart into runes and stray bytes first; each has a text inside
the quotes, and a meaning that the decoder gives back.
-/

namespace GoJson

open GoText

/-- What `utf8.DecodeRuneInString` finds at the front of a string. -/
inductive Piece where
  | ascii (c : UInt8)
  | wide (rune : Bytes)
  | invalid

/-- The pieces of a string; the first number of bytes belong to one already taken. -/
def piecesFrom : Nat → Bytes → List Piece
  | _, [] => []
  | skip + 1, _ :: rest => piecesFrom skip rest
  | 0, c :: rest =>
      if c < 0x80 then .ascii c :: piecesFrom 0 rest
      else
        match runeLen (c :: rest) with
        | 0 => .invalid :: piecesFrom 0 rest
        | n + 1 => .wide ((c :: rest).take (n + 1)) :: piecesFrom n rest

def pieces (s : Bytes) : List Piece := piecesFrom 0 s

/-- `htmlSafeSet`: the bytes below `0x80` that are copied. -/
def isHtmlSafe (c : UInt8) : Bool :=
  32 ≤ c && c ≠ 34 && c ≠ 38 && c ≠ 60 && c ≠ 62 && c ≠ 92

/-- `"0123456789abcdef"[n]` -/
def hexDigit (n : UInt8) : UInt8 := if n < 10 then 48 + n else 87 + n

def escapeAscii (c : UInt8) : Bytes :=
  if isHtmlSafe c then [c]
  else if c = 92 ∨ c = 34 then [92, c]
  else if c = 8 then [92, 98]
  else if c = 12 then [92, 102]
  else if c = 10 then [92, 110]
  else if c = 13 then [92, 114]
  else if c = 9 then [92, 116]
  else [92, 117, 48, 48, hexDigit (c >>> 4), hexDigit (c &&& 15)]

def Piece.escape : Piece → Bytes
  | .ascii c => escapeAscii c
  | .wide rune =>
      if rune = [0xE2, 0x80, 0xA8] then str "\\u2028"
      else if rune = [0xE2, 0x80, 0xA9] then str "\\u2029"
      else rune
  | .invalid => str "\\ufffd"

/-- What a piece means; a stray byte means the replacement character. -/
def Piece.text : Piece → Bytes
  | .ascii c => [c]
  | .wide rune => rune
  | .invalid => replacement

/-- `appendString` between its quotes, with `escapeHTML` set. -/
def escapeString (s : Bytes) : Bytes := (pieces s).flatMap Piece.escape

/-- The string with every byte that is not part of a rune replaced. -/
def validText (s : Bytes) : Bytes := (pieces s).flatMap Piece.text

/-- `json.Marshal(map[string]string{key: val})` -/
def marshalMember (key val : Bytes) : Bytes :=
  str "\x7b\"" ++ escapeString key ++ str "\":\"" ++ escapeString val ++ str "\"\x7d"

/-! ### Pieces -/

private theorem of_ite_pos {p : Prop} [Decidable p] {k n : Nat}
    (h : (if p then k else 0) = n + 1) : p ∧ k = n + 1 := by
  split at h
  · exact ⟨‹p›, h⟩
  · cases h

private theorem le_of_isContinuation {c : UInt8} (h : isContinuation c = true) : 0x80 ≤ c := by
  simp only [isContinuation, Bool.and_eq_true, decide_eq_true_eq] at h
  exact h.1

private theorem le_of_lowest {p : Prop} [Decidable p] {low b : UInt8} (hlow : 0x80 ≤ low)
    (h : (if p then low else 0x80) ≤ b) : 0x80 ≤ b := by
  split at h
  · exact UInt8.le_trans hlow h
  · exact h

/-- A rune stands at the front of the string; its bytes are not ASCII, and its
length depends on them only. -/
theorem runeLen_split {s : Bytes} {n : Nat} (h : runeLen s = n + 1) :
    ∃ rune rest, s = rune ++ rest ∧ rune.length = n + 1 ∧ (∀ c ∈ rune, 0x80 ≤ c) ∧
      ∀ more, runeLen (rune ++ more) = n + 1 := by
  match s, h with
  | [], h => simp [runeLen] at h
  | [a], h => simp [runeLen] at h
  | a :: b :: rest, h =>
      simp only [runeLen] at h
      by_cases htwo : (0xC2 ≤ a && a ≤ 0xDF) = true
      · rw [if_pos htwo] at h
        obtain ⟨hb, hn⟩ := of_ite_pos h
        obtain rfl : 1 = n := Nat.succ_injective hn
        refine ⟨[a, b], rest, rfl, rfl, ?_, ?_⟩
        · simp only [Bool.and_eq_true, decide_eq_true_eq] at htwo
          simp only [List.mem_cons, List.not_mem_nil, or_false, forall_eq_or_imp, forall_eq]
          exact ⟨UInt8.le_trans (by decide) htwo.1, le_of_isContinuation hb⟩
        · intro more
          simp only [List.cons_append, List.nil_append, runeLen, if_pos htwo, if_pos hb]
      · rw [if_neg htwo] at h
        match rest, h with
        | [], h => cases h
        | c :: rest, h =>
            dsimp only at h
            by_cases hthree : (0xE0 ≤ a && a ≤ 0xEF) = true
            · rw [if_pos hthree] at h
              obtain ⟨hbounds, hn⟩ := of_ite_pos h
              obtain rfl : 2 = n := Nat.succ_injective hn
              refine ⟨[a, b, c], rest, rfl, rfl, ?_, ?_⟩
              · have hthree' := hthree
                have hbounds' := hbounds
                simp only [Bool.and_eq_true, decide_eq_true_eq] at hthree' hbounds'
                simp only [List.mem_cons, List.not_mem_nil, or_false, forall_eq_or_imp, forall_eq]
                exact ⟨UInt8.le_trans (by decide) hthree'.1,
                  le_of_lowest (by decide) hbounds'.1.1, le_of_isContinuation hbounds'.2⟩
              · intro more
                simp only [List.cons_append, List.nil_append, runeLen, if_neg htwo, if_pos hthree,
                  if_pos hbounds]
            · rw [if_neg hthree] at h
              match rest, h with
              | [], h => cases h
              | d :: rest, h =>
                  dsimp only at h
                  obtain ⟨hbounds, hn⟩ := of_ite_pos h
                  obtain rfl : 3 = n := Nat.succ_injective hn
                  refine ⟨[a, b, c, d], rest, rfl, rfl, ?_, ?_⟩
                  · have hbounds' := hbounds
                    simp only [Bool.and_eq_true, decide_eq_true_eq] at hbounds'
                    obtain ⟨⟨⟨⟨⟨ha, -⟩, hb⟩, -⟩, hc⟩, hd⟩ := hbounds'
                    simp only [List.mem_cons, List.not_mem_nil, or_false, forall_eq_or_imp,
                      forall_eq]
                    exact ⟨UInt8.le_trans (by decide) ha, le_of_lowest (by decide) hb,
                      le_of_isContinuation hc, le_of_isContinuation hd⟩
                  · intro more
                    simp only [List.cons_append, List.nil_append, runeLen, if_neg htwo,
                      if_neg hthree, if_pos hbounds]

theorem piecesFrom_drop (n : Nat) (s : Bytes) : piecesFrom n s = piecesFrom 0 (s.drop n) := by
  induction n generalizing s with
  | zero => rfl
  | succ n ih =>
      cases s with
      | nil => simp [piecesFrom]
      | cons c rest => rw [piecesFrom, ih, List.drop_succ_cons]

/-- What a piece is made of. -/
def Piece.Valid : Piece → Prop
  | .ascii c => c < 0x80
  | .wide rune => (∀ c ∈ rune, 0x80 ≤ c) ∧ ∃ c tail, rune = c :: tail ∧
      ∀ more, runeLen (rune ++ more) = tail.length + 1
  | .invalid => True

theorem pieces_valid (s : Bytes) : ∀ p ∈ pieces s, p.Valid := by
  induction hlen : s.length using Nat.strong_induction_on generalizing s with
  | _ n ih =>
      cases s with
      | nil => simp [pieces, piecesFrom]
      | cons c rest =>
          intro p hp
          rw [pieces, piecesFrom] at hp
          rw [List.length_cons] at hlen
          by_cases hascii : c < 0x80
          · rw [if_pos hascii] at hp
            rcases List.mem_cons.mp hp with rfl | hrest
            · exact hascii
            · exact ih rest.length (by omega) rest rfl p hrest
          · rw [if_neg hascii] at hp
            cases hrune : runeLen (c :: rest) with
            | zero =>
                rw [hrune] at hp
                rcases List.mem_cons.mp hp with rfl | hrest
                · trivial
                · exact ih rest.length (by omega) rest rfl p hrest
            | succ m =>
                rw [hrune] at hp
                rcases List.mem_cons.mp hp with rfl | hrest
                · obtain ⟨rune, more, hsplit, hcount, hhigh, hown⟩ := runeLen_split hrune
                  have htake : (c :: rest).take (m + 1) = rune := by
                    rw [hsplit, ← hcount, List.take_left]
                  rw [htake]
                  cases rune with
                  | nil => cases hcount
                  | cons c' tail =>
                      obtain ⟨rfl, -⟩ := List.cons.inj hsplit
                      refine ⟨hhigh, c, tail, rfl, ?_⟩
                      rw [← List.length_cons, hcount]
                      exact hown
                · rw [piecesFrom_drop] at hrest
                  have hshort : (rest.drop m).length < n := by
                    rw [List.length_drop]
                    omega
                  exact ih _ hshort (rest.drop m) rfl p hrest

/-! ### The decoder on the text of a piece -/

theorem encodeRune_ascii : ∀ n : Fin 128, encodeRune n.val = [n.val.toUInt8] := by decide

/-- The two hex digits of a byte give it back. -/
theorem getu4_hexDigits : ∀ n : Fin 128,
    getu4 [48, 48, hexDigit (n.val.toUInt8 >>> 4), hexDigit (n.val.toUInt8 &&& 15)] = n.val ∧
      isHex (hexDigit (n.val.toUInt8 >>> 4)) = true ∧
      isHex (hexDigit (n.val.toUInt8 &&& 15)) = true := by
  decide

theorem unquoteFrom_drop (n : Nat) (s : Bytes) : unquoteFrom n s = unquoteFrom 0 (s.drop n) := by
  induction n generalizing s with
  | zero => rfl
  | succ n ih =>
      cases s with
      | nil => simp [unquoteFrom]
      | cons c rest => rw [unquoteFrom, ih, List.drop_succ_cons]

/-- An escape of four hex digits that is no half of a surrogate pair. -/
theorem unquote_hex (a b c d : UInt8) (rest : Bytes) (hr : getu4 [a, b, c, d] < 0xD800 ∨
    0xDFFF < getu4 [a, b, c, d]) :
    unquoteFrom 0 (92 :: 117 :: a :: b :: c :: d :: rest) =
      encodeRune (getu4 [a, b, c, d]) ++ unquoteFrom 0 rest := by
  have hdigits : getu4 (List.drop 1 (117 :: a :: b :: c :: d :: rest)) = getu4 [a, b, c, d] := rfl
  have hpair : ¬ (0xD800 ≤ getu4 [a, b, c, d] ∧ getu4 [a, b, c, d] ≤ 0xDFFF) := by omega
  rw [unquoteFrom, if_pos rfl, List.head?_cons]
  dsimp only
  rw [if_pos rfl, hdigits, if_neg hpair, unquoteFrom_drop]
  rfl

theorem unquote_escape (e : UInt8) (he : e ≠ 117) (rest : Bytes) :
    unquoteFrom 0 (92 :: e :: rest) = unescape e :: unquoteFrom 0 rest := by
  rw [unquoteFrom, if_pos rfl, List.head?_cons]
  dsimp only
  rw [if_neg he, unquoteFrom_drop]
  rfl

theorem unquote_ascii {c : UInt8} (hc : c < 0x80) (rest : Bytes) :
    unquoteFrom 0 (escapeAscii c ++ rest) = c :: unquoteFrom 0 rest := by
  unfold escapeAscii
  split
  · rename_i hsafe
    have hslash : c ≠ 92 := by
      rintro rfl
      cases hsafe
    rw [List.cons_append, List.nil_append, unquoteFrom, if_neg hslash, if_pos hc]
  · split
    · rename_i hquote
      rcases hquote with rfl | rfl
      · exact unquote_escape 92 (by decide) rest
      · exact unquote_escape 34 (by decide) rest
    · split
      · subst_vars
        exact unquote_escape 98 (by decide) rest
      · split
        · subst_vars
          exact unquote_escape 102 (by decide) rest
        · split
          · subst_vars
            exact unquote_escape 110 (by decide) rest
          · split
            · subst_vars
              exact unquote_escape 114 (by decide) rest
            · split
              · subst_vars
                exact unquote_escape 116 (by decide) rest
              · have hlt : c.toNat < 128 := UInt8.lt_iff_toNat_lt.mp hc
                obtain ⟨hvalue, -⟩ := getu4_hexDigits ⟨c.toNat, hlt⟩
                have hrune := encodeRune_ascii ⟨c.toNat, hlt⟩
                simp only [Nat.toUInt8_eq, UInt8.ofNat_toNat] at hvalue hrune
                simp only [List.cons_append, List.nil_append]
                rw [unquote_hex _ _ _ _ _ (by omega), hvalue, hrune]
                rfl

theorem Piece.unquote_escape {p : Piece} (h : p.Valid) (rest : Bytes) :
    unquoteFrom 0 (p.escape ++ rest) = p.text ++ unquoteFrom 0 rest := by
  cases p with
  | ascii c => exact unquote_ascii h rest
  | invalid => exact unquote_hex 102 102 102 100 rest (by decide)
  | wide rune =>
      obtain ⟨hall, c, tail, rfl, hlen⟩ := h
      have hhigh : ¬ c < 0x80 := UInt8.not_lt.mpr (hall c List.mem_cons_self)
      rw [escape]
      split
      · rename_i hsep
        rw [text, hsep]
        exact unquote_hex 50 48 50 56 rest (by decide)
      · split
        · rename_i hsep
          rw [text, hsep]
          exact unquote_hex 50 48 50 57 rest (by decide)
        · have hslash : c ≠ 92 := by
            rintro rfl
            exact hhigh (by decide)
          have hrune : runeLen (c :: (tail ++ rest)) = tail.length + 1 := hlen rest
          rw [text, List.cons_append, unquoteFrom, if_neg hslash, if_neg hhigh, hrune]
          dsimp only
          rw [unquoteFrom_drop, List.drop_left, List.take_succ_cons, List.take_left]

/-- Bytes that the scanner copies. -/
theorem scan_copied {s : Bytes} (h : ∀ c ∈ s, c ≠ 34 ∧ c ≠ 92 ∧ 32 ≤ c) (rest : Bytes) :
    scanString .plain (s ++ rest) =
      (scanString .plain rest).map (fun r => (s ++ r.1, r.2)) := by
  induction s with
  | nil => simp
  | cons c s ih =>
      obtain ⟨hquote, hslash, hlow⟩ := h c List.mem_cons_self
      have hcontrol : ¬ c < 32 := UInt8.not_lt.mpr hlow
      rw [List.cons_append, scanString, if_neg hquote, if_neg hslash, if_neg hcontrol,
        ih (fun c' hc' => h c' (List.mem_cons_of_mem c hc')), Option.map_map]
      rfl

theorem scan_escape (e : UInt8) (he : (str "bfnrt\\/\"").contains e = true) (rest : Bytes) :
    scanString .plain (92 :: e :: rest) =
      (scanString .plain rest).map (fun r => (92 :: e :: r.1, r.2)) := by
  rw [scanString, if_neg (by decide), if_pos rfl, scanString, if_pos he, Option.map_map]
  rfl

theorem scan_hex {a b c d : UInt8} (h : [a, b, c, d].all isHex = true) (rest : Bytes) :
    scanString .plain (92 :: 117 :: a :: b :: c :: d :: rest) =
      (scanString .plain rest).map (fun r => (92 :: 117 :: a :: b :: c :: d :: r.1, r.2)) := by
  simp only [List.all_cons, List.all_nil, Bool.and_true, Bool.and_eq_true] at h
  obtain ⟨ha, hb, hc, hd⟩ := h
  rw [scanString, if_neg (by decide), if_pos rfl, scanString, if_neg (by decide), if_pos rfl,
    scanString, if_pos ha, scanString, if_pos hb, scanString, if_pos hc, scanString, if_pos hd]
  simp only [Option.map_map]
  rfl

theorem scan_ascii {c : UInt8} (hc : c < 0x80) (rest : Bytes) :
    scanString .plain (escapeAscii c ++ rest) =
      (scanString .plain rest).map (fun r => (escapeAscii c ++ r.1, r.2)) := by
  unfold escapeAscii
  split
  · rename_i hsafe
    simp only [isHtmlSafe, Bool.and_eq_true, decide_eq_true_eq, ne_eq, decide_not,
      Bool.not_eq_true', decide_eq_false_iff_not] at hsafe
    obtain ⟨⟨⟨⟨⟨hlow, hquote⟩, -⟩, -⟩, -⟩, hslash⟩ := hsafe
    exact scan_copied (by simpa using ⟨hquote, hslash, hlow⟩) rest
  · split
    · rename_i hquote
      rcases hquote with rfl | rfl
      · exact scan_escape 92 (by decide) rest
      · exact scan_escape 34 (by decide) rest
    · split
      · exact scan_escape 98 (by decide) rest
      · split
        · exact scan_escape 102 (by decide) rest
        · split
          · exact scan_escape 110 (by decide) rest
          · split
            · exact scan_escape 114 (by decide) rest
            · split
              · exact scan_escape 116 (by decide) rest
              · have hlt : c.toNat < 128 := UInt8.lt_iff_toNat_lt.mp hc
                obtain ⟨-, hhigh, hlow⟩ := getu4_hexDigits ⟨c.toNat, hlt⟩
                simp only [Nat.toUInt8_eq, UInt8.ofNat_toNat] at hhigh hlow
                apply scan_hex
                simp only [List.all_cons, List.all_nil, hhigh, hlow, Bool.and_true]
                decide

theorem Piece.scan_escape {p : Piece} (h : p.Valid) (rest : Bytes) :
    scanString .plain (p.escape ++ rest) =
      (scanString .plain rest).map (fun r => (p.escape ++ r.1, r.2)) := by
  cases p with
  | ascii c => exact scan_ascii h rest
  | invalid => exact scan_hex (a := 102) (b := 102) (c := 102) (d := 100) (by decide) rest
  | wide rune =>
      rw [escape]
      split
      · exact scan_hex (a := 50) (b := 48) (c := 50) (d := 56) (by decide) rest
      · split
        · exact scan_hex (a := 50) (b := 48) (c := 50) (d := 57) (by decide) rest
        · apply scan_copied
          intro c hc
          have hhigh := h.1 c hc
          refine ⟨?_, ?_, UInt8.le_trans (by decide) hhigh⟩
          · rintro rfl
            exact absurd hhigh (by decide)
          · rintro rfl
            exact absurd hhigh (by decide)

/-! ### What does not occur -/

/-- Bytes that may stand in an encoded string: no control characters, and none
of those that HTML gives a meaning. -/
def isEncoded (c : UInt8) : Bool := 32 ≤ c && c ≠ 38 && c ≠ 60 && c ≠ 62

theorem isEncoded_hexDigit : ∀ n : Fin 128, isEncoded (hexDigit (n.val.toUInt8 >>> 4)) = true ∧
    isEncoded (hexDigit (n.val.toUInt8 &&& 15)) = true := by
  decide

theorem escapeAscii_encoded {c : UInt8} (hc : c < 0x80) : (escapeAscii c).all isEncoded = true := by
  unfold escapeAscii
  split
  · rename_i hsafe
    simp only [isHtmlSafe, Bool.and_eq_true, decide_eq_true_eq] at hsafe
    obtain ⟨⟨⟨⟨⟨hlow, -⟩, hamp⟩, hlt⟩, hgt⟩, -⟩ := hsafe
    simp [isEncoded, hlow, hamp, hlt, hgt]
  · split
    · rename_i hquote
      rcases hquote with rfl | rfl
      · decide
      · decide
    · split
      · decide
      · split
        · decide
        · split
          · decide
          · split
            · decide
            · split
              · decide
              · have hlt : c.toNat < 128 := UInt8.lt_iff_toNat_lt.mp hc
                obtain ⟨hhigh, hlow⟩ := isEncoded_hexDigit ⟨c.toNat, hlt⟩
                simp only [Nat.toUInt8_eq, UInt8.ofNat_toNat] at hhigh hlow
                simp only [List.all_cons, List.all_nil, hhigh, hlow, Bool.and_true]
                decide

theorem Piece.escape_encoded {p : Piece} (h : p.Valid) : p.escape.all isEncoded = true := by
  cases p with
  | ascii c => exact escapeAscii_encoded h
  | invalid => decide
  | wide rune =>
      rw [escape]
      split
      · decide
      · split
        · decide
        · rw [List.all_eq_true]
          intro c hc
          have hhigh := h.1 c hc
          have hne (d : UInt8) (hd : d < 0x80) : c ≠ d := by
            rintro rfl
            exact absurd hhigh (UInt8.not_le.mpr hd)
          simp [isEncoded, UInt8.le_trans (show (32 : UInt8) ≤ 0x80 by decide) hhigh,
            hne 38 (by decide), hne 60 (by decide), hne 62 (by decide)]

theorem escapeString_encoded (s : Bytes) : (escapeString s).all isEncoded = true := by
  rw [List.all_eq_true, escapeString]
  intro c hc
  obtain ⟨p, hp, hmem⟩ := List.mem_flatMap.mp hc
  exact List.all_eq_true.mp (Piece.escape_encoded (pieces_valid s p hp)) c hmem

theorem marshalMember_encoded (key val : Bytes) :
    (marshalMember key val).all isEncoded = true := by
  simp only [marshalMember, List.all_append, escapeString_encoded, Bool.and_true]
  decide

/-! ### Strings and objects -/

/-- The scanner finds the end of an escaped string. -/
theorem scan_escapeString (s rest : Bytes) :
    scanString .plain (escapeString s ++ 34 :: rest) = some (escapeString s, rest) := by
  have hvalid := pieces_valid s
  unfold escapeString
  generalize pieces s = ps at hvalid
  induction ps with
  | nil => rfl
  | cons p ps ih =>
      rw [List.flatMap_cons, List.append_assoc, Piece.scan_escape (hvalid p List.mem_cons_self),
        ih (fun q hq => hvalid q (List.mem_cons_of_mem p hq))]
      rfl

theorem unquote_escapeString (s : Bytes) : unquote (escapeString s) = validText s := by
  have hvalid := pieces_valid s
  unfold unquote escapeString validText
  generalize pieces s = ps at hvalid
  induction ps with
  | nil => rfl
  | cons p ps ih =>
      rw [List.flatMap_cons, List.flatMap_cons, Piece.unquote_escape (hvalid p List.mem_cons_self),
        ih (fun q hq => hvalid q (List.mem_cons_of_mem p hq))]

/-- Decoding what was encoded gives the member back, up to stray bytes. -/
theorem unmarshal_marshalMember (key val : Bytes) :
    unmarshal (marshalMember key val) = some [(validText key, validText val)] := by
  have hvalue (fuel depth : Nat) : value (fuel + 1) depth (34 :: (escapeString val ++ [34, 125])) =
      some (.text (validText val), [125]) := by
    rw [value, if_neg (by decide), if_neg (by decide), if_pos rfl, scan_escapeString,
      Option.map_some, unquote_escapeString]
  have hmembers (fuel depth : Nat) : members (fuel + 2) depth
      (34 :: (escapeString key ++ 34 :: 58 :: 34 :: (escapeString val ++ [34, 125]))) =
        some ([(validText key, .text (validText val))], []) := by
    have hcolon (s : Bytes) : skipBlank (58 :: s) = 58 :: s := rfl
    have hopen (s : Bytes) : skipBlank (34 :: s) = 34 :: s := rfl
    have hclose : skipBlank [125] = [125] := rfl
    rw [members]
    simp only [scan_escapeString, hcolon, hopen, hvalue, hclose, unquote_escapeString]
  have htext : marshalMember key val = 123 :: 34 :: (escapeString key ++
      34 :: 58 :: 34 :: (escapeString val ++ [34, 125])) := by
    simp only [marshalMember, List.append_assoc]
    rfl
  rw [htext, unmarshal_object (object_of_members (hmembers _ _)) rfl]
  rfl

end GoJson
