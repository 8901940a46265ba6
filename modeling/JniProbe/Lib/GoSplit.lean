import JniProbe.Lib.GoText

/-!
Taking Go strings apart: white space as `unicode.IsSpace` defines it, in its
UTF-8 encodings, and separators of one byte. A space encoding starts with an
ASCII byte or a lead byte, so it is found wherever its bytes stand, also in a
string that is not valid UTF-8.
-/

namespace GoText

/-- `U+0009..U+000D`, `U+0020`, `U+0085`, `U+00A0`, `U+1680`, `U+2000..U+200A`,
`U+2028`, `U+2029`, `U+202F`, `U+205F` and `U+3000`. -/
def spaces : List Bytes :=
  [[9], [10], [11], [12], [13], [32], [0xC2, 0x85], [0xC2, 0xA0], [0xE1, 0x9A, 0x80],
    [0xE2, 0x80, 0x80], [0xE2, 0x80, 0x81], [0xE2, 0x80, 0x82], [0xE2, 0x80, 0x83],
    [0xE2, 0x80, 0x84], [0xE2, 0x80, 0x85], [0xE2, 0x80, 0x86], [0xE2, 0x80, 0x87],
    [0xE2, 0x80, 0x88], [0xE2, 0x80, 0x89], [0xE2, 0x80, 0x8A], [0xE2, 0x80, 0xA8],
    [0xE2, 0x80, 0xA9], [0xE2, 0x80, 0xAF], [0xE2, 0x81, 0x9F], [0xE3, 0x80, 0x80]]

/-- How many bytes one of the given encodings takes at the front. -/
def frontLen (encodings : List Bytes) (s : Bytes) : Nat :=
  match encodings.find? (fun c => c.isPrefixOf s) with
  | some c => c.length
  | none => 0

/-- Drops encodings from the front, after `skip` bytes of one that is being dropped. -/
def trimFrom (encodings : List Bytes) : Nat → Bytes → Bytes
  | _, [] => []
  | skip + 1, _ :: rest => trimFrom encodings skip rest
  | 0, b :: rest =>
      match frontLen encodings (b :: rest) with
      | 0 => b :: rest
      | n + 1 => trimFrom encodings n rest

def trimSpace (s : Bytes) : Bytes :=
  (trimFrom (spaces.map List.reverse) 0 (trimFrom spaces 0 s).reverse).reverse

def trimPrefix (s pre : Bytes) : Bytes := if hasPrefix s pre then s.drop pre.length else s

private def flush (field : Bytes) : List Bytes := if field = [] then [] else [field]

/-- The fields of a string that goes on behind the part `field` of a field. -/
def fieldsFrom : Nat → Bytes → Bytes → List Bytes
  | _, field, [] => flush field
  | skip + 1, field, _ :: rest => fieldsFrom skip field rest
  | 0, field, b :: rest =>
      match frontLen spaces (b :: rest) with
      | 0 => fieldsFrom 0 (field ++ [b]) rest
      | n + 1 => flush field ++ fieldsFrom n [] rest

/-- `strings.Fields`. -/
def fields (s : Bytes) : List Bytes := fieldsFrom 0 [] s

/-- `strings.Split` at a separator of one byte. -/
def split (sep : UInt8) : Bytes → List Bytes
  | [] => [[]]
  | b :: rest =>
      if b = sep then [] :: split sep rest
      else
        match split sep rest with
        | [] => [[b]]
        | part :: parts => (b :: part) :: parts

/-- `strings.SplitN` into at most two parts, if there are two. -/
def splitTwo (sep : UInt8) (s : Bytes) : Option (Bytes × Bytes) :=
  (indexByte s sep).map (fun i => (s.take i, s.drop (i + 1)))

/-- Every space encoding starts with one of these bytes. -/
def startsSpace (b : UInt8) : Bool :=
  [9, 10, 11, 12, 13, 32, 0xC2, 0xE1, 0xE2, 0xE3].contains b

/-- Every space encoding ends with one of these bytes. -/
def endsSpace (b : UInt8) : Bool := spaces.any (fun c => c.getLast? == some b)

theorem frontLen_eq_zero {encodings : List Bytes} {b : UInt8} {rest : Bytes}
    (h : ∀ c ∈ encodings, c.head? ≠ some b) (hne : [] ∉ encodings) :
    frontLen encodings (b :: rest) = 0 := by
  have hnone : encodings.find? (fun c => c.isPrefixOf (b :: rest)) = none := by
    rw [List.find?_eq_none]
    intro c hc hwithin
    cases c with
    | nil => exact hne hc
    | cons c₀ cs =>
        have hhead : c₀ = b := by
          simp only [List.isPrefixOf_cons_cons, Bool.and_eq_true, beq_iff_eq] at hwithin
          exact hwithin.1
        exact h (c₀ :: cs) hc (by rw [hhead, List.head?_cons])
  rw [frontLen, hnone]

theorem trimFrom_of_head {encodings : List Bytes} {b : UInt8} {rest : Bytes}
    (h : ∀ c ∈ encodings, c.head? ≠ some b) (hne : [] ∉ encodings) :
    trimFrom encodings 0 (b :: rest) = b :: rest := by
  rw [trimFrom, frontLen_eq_zero h hne]

theorem startsSpace_of_head {c : Bytes} (hc : c ∈ spaces) {b : UInt8} (hb : c.head? = some b) :
    startsSpace b = true := by
  have hall : spaces.all (fun c => c.head?.all startsSpace) = true := by decide
  have hhead := List.all_eq_true.mp hall c hc
  rwa [hb] at hhead

theorem frontLen_of_not_space {b : UInt8} (h : startsSpace b = false) (rest : Bytes) :
    frontLen spaces (b :: rest) = 0 := by
  apply frontLen_eq_zero
  · intro c hc hhead
    rw [startsSpace_of_head hc hhead] at h
    cases h
  · decide

/-- A string that neither begins nor ends like white space is not changed. -/
theorem trimSpace_eq_self {s : Bytes} (hfirst : ∀ b ∈ s.head?, startsSpace b = false)
    (hlast : ∀ b ∈ s.getLast?, endsSpace b = false) : trimSpace s = s := by
  have hleft : trimFrom spaces 0 s = s := by
    cases s with
    | nil => rfl
    | cons b rest =>
        rw [trimFrom, frontLen_of_not_space (hfirst b rfl)]
  rw [trimSpace, hleft]
  cases hrev : s.reverse with
  | nil =>
      have hnil : s = [] := List.reverse_eq_nil_iff.mp hrev
      rw [hnil]
      rfl
  | cons b rest =>
      have hend : s.getLast? = some b := by rw [← List.head?_reverse, hrev, List.head?_cons]
      have htrim : trimFrom (spaces.map List.reverse) 0 (b :: rest) = b :: rest := by
        apply trimFrom_of_head
        · intro c hc hhead
          obtain ⟨c', hc', rfl⟩ := List.mem_map.mp hc
          rw [List.head?_reverse] at hhead
          have htrue : endsSpace b = true := by
            rw [endsSpace, List.any_eq_true]
            exact ⟨c', hc', by rw [hhead]; exact beq_self_eq_true _⟩
          rw [hlast b hend] at htrue
          cases htrue
        · decide
      rw [htrim, ← hrev, List.reverse_reverse]

/-! ### Fields between single spaces -/

/-- A field: not empty, and no byte that could start a space. -/
def IsWord (s : Bytes) : Prop := s ≠ [] ∧ ∀ b ∈ s, startsSpace b = false

theorem fieldsFrom_word {word : Bytes} (h : ∀ b ∈ word, startsSpace b = false)
    (field rest : Bytes) :
    fieldsFrom 0 field (word ++ rest) = fieldsFrom 0 (field ++ word) rest := by
  induction word generalizing field with
  | nil => rw [List.nil_append, List.append_nil]
  | cons b word ih =>
      rw [List.cons_append, fieldsFrom, frontLen_of_not_space (h b List.mem_cons_self)]
      simp only [ih (fun b' hb' => h b' (List.mem_cons_of_mem b hb')), List.append_assoc,
        List.singleton_append]

theorem fields_word {word : Bytes} (h : IsWord word) : fields word = [word] := by
  have hword := fieldsFrom_word h.2 [] []
  rw [List.append_nil, List.nil_append] at hword
  rw [fields, hword, fieldsFrom, flush, if_neg h.1]

theorem fields_word_space {word : Bytes} (h : IsWord word) (rest : Bytes) :
    fields (word ++ 32 :: rest) = word :: fields rest := by
  have hspace : frontLen spaces (32 :: rest) = 1 := rfl
  have hword : word = [] ++ word := rfl
  rw [fields, fieldsFrom_word h.2, ← hword, fieldsFrom, hspace]
  simp only [flush, if_neg h.1, List.singleton_append]
  rfl

private theorem subset_of_mem_flush {field f : Bytes} (h : f ∈ flush field) : f ⊆ field := by
  unfold flush at h
  split at h
  · cases h
  · rw [List.mem_singleton.mp h]
    exact List.Subset.refl _

theorem subset_of_mem_fieldsFrom {skip : Nat} {field s f : Bytes}
    (h : f ∈ fieldsFrom skip field s) : f ⊆ field ++ s := by
  induction s generalizing skip field with
  | nil =>
      rw [List.append_nil]
      cases skip <;> exact subset_of_mem_flush h
  | cons b rest ih =>
      cases skip with
      | succ skip =>
          have hrest := ih h
          intro c hc
          rcases List.mem_append.mp (hrest hc) with hc | hc
          · exact List.mem_append_left _ hc
          · exact List.mem_append_right _ (List.mem_cons_of_mem _ hc)
      | zero =>
          rw [fieldsFrom] at h
          split at h
          · have hrest := ih h
            rwa [List.append_assoc, List.singleton_append] at hrest
          · rcases List.mem_append.mp h with h | h
            · exact List.Subset.trans (subset_of_mem_flush h) (List.subset_append_left _ _)
            · have hrest : f ⊆ rest := ih h
              have hword : f ⊆ b :: rest := List.Subset.trans hrest (List.subset_cons_self _ _)
              exact List.Subset.trans hword (List.subset_append_right _ _)

/-- The fields are made of bytes of the text. -/
theorem subset_of_mem_fields {s f : Bytes} (h : f ∈ fields s) : f ⊆ s :=
  subset_of_mem_fieldsFrom h

theorem fields_spaces (k : Nat) (rest : Bytes) :
    fields (List.replicate k 32 ++ rest) = fields rest := by
  have hspace (s : Bytes) : frontLen spaces (32 :: s) = 1 := rfl
  induction k with
  | zero => rfl
  | succ k ih =>
      rw [List.replicate_succ, List.cons_append, fields, fieldsFrom, hspace]
      exact ih

/-- A line that holds no separator is split off. -/
theorem split_append (before after : Bytes) {sep : UInt8} (h : sep ∉ before) :
    split sep (before ++ sep :: after) = before :: split sep after := by
  induction before with
  | nil => rw [List.nil_append, split, if_pos rfl]
  | cons b rest ih =>
      obtain ⟨hb, hrest⟩ : sep ≠ b ∧ sep ∉ rest := by simpa using h
      rw [List.cons_append, split, if_neg (Ne.symm hb), ih hrest]

theorem split_lines {lines : List Bytes} {sep : UInt8} (h : ∀ l ∈ lines, sep ∉ l) :
    split sep (lines.flatMap (fun l => l ++ [sep])) = lines ++ [[]] := by
  induction lines with
  | nil => rfl
  | cons l rest ih =>
      have hrest := ih (fun l' hl' => h l' (List.mem_cons_of_mem l hl'))
      rw [List.flatMap_cons, List.append_assoc, List.singleton_append,
        split_append _ _ (h l List.mem_cons_self), hrest, List.cons_append]

theorem notMem_of_mem_split {sep : UInt8} {s l : Bytes} (h : l ∈ split sep s) : sep ∉ l := by
  induction s generalizing l with
  | nil =>
      obtain rfl := List.mem_singleton.mp h
      exact List.not_mem_nil
  | cons b rest ih =>
      rw [split] at h
      split at h
      · rcases List.mem_cons.mp h with rfl | h
        · exact List.not_mem_nil
        · exact ih h
      · rename_i hb
        split at h
        · obtain rfl := List.mem_singleton.mp h
          rw [List.mem_singleton]
          exact Ne.symm hb
        · rename_i part parts hparts
          rcases List.mem_cons.mp h with rfl | h
          · rw [List.mem_cons, not_or]
            exact ⟨Ne.symm hb, ih (hparts ▸ List.mem_cons_self)⟩
          · exact ih (hparts ▸ List.mem_cons_of_mem _ h)

theorem splitTwo_append (before after : Bytes) {sep : UInt8} (h : sep ∉ before) :
    splitTwo sep (before ++ sep :: after) = some (before, after) := by
  have hrest : (before ++ sep :: after).drop (before.length + 1) = after := by
    rw [List.drop_append, List.drop_eq_nil_of_le (by omega), Nat.add_sub_cancel_left]
    rfl
  rw [splitTwo, indexByte_append before after sep h, Option.map_some, List.take_left, hrest]

end GoText
