import JniProbe.Loader.Decode

/-!
Method descriptors. `parseParams` is a scanner that accepts any text; on a
valid descriptor it returns the parameters the descriptor was built from.
-/

namespace JniProbe

open GoText

inductive ParamType where
  | boolean
  | byte
  | char
  | short
  | int
  | long
  | float
  | double
  | object (cls : Bytes)
  | array (elem : ParamType)

namespace ParamType

def desc : ParamType → Bytes
  | boolean => [90]
  | byte => [66]
  | char => [67]
  | short => [83]
  | int => [73]
  | long => [74]
  | float => [70]
  | double => [68]
  | object cls => 76 :: (cls ++ [59])
  | array elem => 91 :: elem.desc

/-- A class name ends at the semicolon and not before. -/
def WellFormed : ParamType → Prop
  | object cls => 59 ∉ cls
  | array elem => elem.WellFormed
  | _ => True

def isFp : ParamType → Bool
  | float | double => true
  | _ => false

theorem desc_ne_nil (t : ParamType) : t.desc ≠ [] := by
  cases t <;> simp [desc]

end ParamType

/-- A valid method descriptor: at most 255 parameters, and a return type. -/
structure Descriptor where
  params : List ParamType
  ret : Bytes
  wellFormed : ∀ t ∈ params, t.WellFormed
  bounded : params.length ≤ 255

def Descriptor.text (d : Descriptor) : Bytes :=
  40 :: (d.params.flatMap ParamType.desc ++ 41 :: d.ret)

/-! ### Scanning one parameter -/

section Scan

variable {sig rest : Bytes} {pos : Nat}

theorem getElem?_of_drop {b : UInt8} (h : sig.drop pos = b :: rest) : sig[pos]? = some b := by
  have hhead : (sig.drop pos)[0]? = some b := by rw [h]; rfl
  simpa using hhead

theorem drop_add_of_append {s : Bytes} (h : sig.drop pos = s ++ rest) :
    sig.drop (pos + s.length) = rest := by
  rw [← List.drop_drop, h, List.drop_left]

theorem drop_succ_of_cons {b : UInt8} (h : sig.drop pos = b :: rest) :
    sig.drop (pos + 1) = rest :=
  drop_add_of_append (s := [b]) h

theorem skipWhile_of_cons {p : UInt8 → Bool} {b : UInt8} (h : sig.drop pos = b :: rest)
    (hp : p b = false) : skipWhile sig p pos = pos := by
  simp [skipWhile, h, hp]

theorem skipWhile_cons {p : UInt8 → Bool} {b : UInt8} (h : sig.drop pos = b :: rest)
    (hp : p b = true) : skipWhile sig p pos = skipWhile sig p (pos + 1) := by
  simp only [skipWhile, h, drop_succ_of_cons h, List.takeWhile_cons, hp, if_true,
    List.length_cons]
  omega

/-- A class name is scanned to its semicolon. -/
theorem classEnd_object {cls : Bytes} (hcls : 59 ∉ cls)
    (h : sig.drop pos = (ParamType.object cls).desc ++ rest) :
    classEnd sig pos = pos + (ParamType.object cls).desc.length := by
  have hshape : sig.drop pos = (76 :: cls) ++ 59 :: rest := by simpa [ParamType.desc] using h
  have hname : ∀ b ∈ 76 :: cls, (b != 59) = true := by
    intro b hb
    rcases List.mem_cons.mp hb with rfl | hin
    · decide
    · simp only [bne_iff_ne, ne_eq]
      rintro rfl
      exact hcls hin
  have htake : (sig.drop pos).takeWhile (· != 59) = 76 :: cls := by
    rw [hshape, List.takeWhile_append_of_pos hname]
    simp
  simp only [classEnd, skipWhile, htake, ParamType.desc, List.length_cons, List.length_append,
    List.length_nil]
  omega

/-- Behind the brackets of an array, the element type is scanned to its end. -/
theorem elemEnd (t : ParamType) (ht : t.WellFormed) (h : sig.drop pos = t.desc ++ rest) :
    (if sig[skipWhile sig (· == 91) pos]? = some 76 then
      classEnd sig (skipWhile sig (· == 91) pos)
    else skipWhile sig (· == 91) pos + 1) = pos + t.desc.length := by
  have hprim {b : UInt8} (hb : b ≠ 91) (hb' : b ≠ 76) (h : sig.drop pos = [b] ++ rest) :
      (if sig[skipWhile sig (· == 91) pos]? = some 76 then
        classEnd sig (skipWhile sig (· == 91) pos)
      else skipWhile sig (· == 91) pos + 1) = pos + 1 := by
    rw [skipWhile_of_cons h (by simpa using hb), getElem?_of_drop h, if_neg (by simpa using hb')]
  induction t generalizing pos with
  | boolean => exact hprim (by decide) (by decide) h
  | byte => exact hprim (by decide) (by decide) h
  | char => exact hprim (by decide) (by decide) h
  | short => exact hprim (by decide) (by decide) h
  | int => exact hprim (by decide) (by decide) h
  | long => exact hprim (by decide) (by decide) h
  | float => exact hprim (by decide) (by decide) h
  | double => exact hprim (by decide) (by decide) h
  | object cls =>
      rw [skipWhile_of_cons h (by decide), getElem?_of_drop h, if_pos rfl]
      exact classEnd_object ht h
  | array elem ih =>
      have hnext : sig.drop (pos + 1) = elem.desc ++ rest := drop_succ_of_cons h
      have hlen : pos + (ParamType.array elem).desc.length = pos + 1 + elem.desc.length := by
        simp only [ParamType.desc, List.length_cons]
        omega
      rw [skipWhile_cons h (by decide), hlen]
      apply ih ht hnext
      intro b hb hb' h
      rw [skipWhile_of_cons h (by simpa using hb), getElem?_of_drop h, if_neg (by simpa using hb')]

/-- The loop body of `parseParams` ends behind the parameter it starts at. -/
theorem paramEnd_desc (t : ParamType) (ht : t.WellFormed) (h : sig.drop pos = t.desc ++ rest) :
    paramEnd sig pos = pos + t.desc.length := by
  unfold paramEnd
  cases t with
  | object cls =>
      rw [getElem?_of_drop h, if_pos rfl]
      exact classEnd_object ht h
  | array elem =>
      have hnext : sig.drop (pos + 1) = elem.desc ++ rest := drop_succ_of_cons h
      have hlen : pos + (ParamType.array elem).desc.length = pos + 1 + elem.desc.length := by
        simp only [ParamType.desc, List.length_cons]
        omega
      rw [getElem?_of_drop h, if_neg (by decide), if_pos rfl, hlen]
      exact elemEnd elem ht hnext
  | _ => rw [getElem?_of_drop h, if_neg (by decide), if_neg (by decide)]; rfl

theorem paramsLoop_desc (params : List ParamType) (ret : Bytes)
    (hvalid : ∀ t ∈ params, t.WellFormed) (fuel : Nat) (hfuel : params.length < fuel)
    (h : sig.drop pos = params.flatMap ParamType.desc ++ 41 :: ret) :
    paramsLoop sig fuel pos = params.map ParamType.desc := by
  induction params generalizing pos fuel with
  | nil =>
      obtain ⟨fuel, rfl⟩ : ∃ f, fuel = f + 1 := ⟨fuel - 1, by simp at hfuel; omega⟩
      have hend : sig[pos]? = some 41 := getElem?_of_drop h
      simp [paramsLoop, hend]
  | cons t rest' ih =>
      obtain ⟨fuel, rfl⟩ : ∃ f, fuel = f + 1 := ⟨fuel - 1, by simp at hfuel; omega⟩
      have hsplit : sig.drop pos = t.desc ++ (rest'.flatMap ParamType.desc ++ 41 :: ret) := by
        simpa using h
      have hend := paramEnd_desc t (hvalid t (by simp)) hsplit
      obtain ⟨b, tail, hdesc⟩ := List.exists_cons_of_ne_nil t.desc_ne_nil
      have hcons : sig.drop pos = b :: (tail ++ (rest'.flatMap ParamType.desc ++ 41 :: ret)) := by
        rw [hsplit, hdesc]
        rfl
      have hhead : sig[pos]? = some b := getElem?_of_drop hcons
      have hopen : b ≠ 41 := by
        cases t <;> simp only [ParamType.desc, List.cons.injEq] at hdesc <;>
          obtain ⟨rfl, -⟩ := hdesc <;> decide
      have hpos : pos < pos + t.desc.length := by simp [hdesc]
      have hlen : pos + t.desc.length ≤ sig.length := by
        have htotal := congrArg List.length hsplit
        simp only [List.length_drop, List.length_append] at htotal
        omega
      have hword : (sig.take (pos + t.desc.length)).drop pos = t.desc := by
        rw [List.drop_take, Nat.add_sub_cancel_left, hsplit, List.take_left]
      simp only [paramsLoop, hhead, hopen, if_false, hend, hpos, hlen, and_self, if_true, hword,
        List.map_cons]
      rw [ih (fun t ht => hvalid t (by simp [ht])) fuel (by simpa using hfuel)
        (drop_add_of_append hsplit)]

end Scan

/-- The text of a descriptor with these parameters, however many. -/
def descriptorText (params : List ParamType) (ret : Bytes) : Bytes :=
  40 :: (params.flatMap ParamType.desc ++ 41 :: ret)

theorem length_le_flatMap_desc (params : List ParamType) :
    params.length ≤ (params.flatMap ParamType.desc).length := by
  induction params with
  | nil => exact Nat.le_refl 0
  | cons t rest ih =>
      have hpos := List.length_pos_of_ne_nil t.desc_ne_nil
      simp only [List.flatMap_cons, List.length_append, List.length_cons]
      omega

theorem parseParams_descriptorText {params : List ParamType} (hvalid : ∀ t ∈ params, t.WellFormed)
    (ret : Bytes) : parseParams (descriptorText params ret) = params.map ParamType.desc := by
  have hstart : (descriptorText params ret)[0]? = some 40 := rfl
  rw [parseParams, if_pos hstart]
  apply paramsLoop_desc params ret hvalid
  · have hlen := length_le_flatMap_desc params
    simp only [descriptorText, List.length_cons, List.length_append]
    omega
  · rfl

/-- The parameters of a valid descriptor are parsed as they are. -/
theorem parseParams_text (d : Descriptor) : parseParams d.text = d.params.map ParamType.desc :=
  parseParams_descriptorText d.wellFormed d.ret

/-! ### Rendering by descriptor -/

/-- `fmtJV` by the type that a parameter text stands for. -/
theorem fmtJV_desc (t : ParamType) (v : UInt64) (c : Caches) (mr : Option UserMemory) :
    fmtJV t.desc v c mr =
      match t with
      | .boolean => fmtBoolean v
      | .byte => fmtByte v
      | .char => fmtChar v
      | .short => fmtShort v
      | .int => fmtInt v
      | .long => fmtLong v
      | .float => fmtFloat v
      | .double => fmtDouble v
      | .object _ | .array _ => objClassName c mr v := by
  have hother {s : Bytes} {b : UInt8} (hs : s.head? = some b) (hb : b = 76 ∨ b = 91) :
      fmtJV s v c mr = objClassName c mr v := by
    have hne {x : Bytes} (hx : x.head? ≠ some 76 ∧ x.head? ≠ some 91) : s ≠ x := by
      rintro rfl
      rcases hb with rfl | rfl
      · exact hx.1 hs
      · exact hx.2 hs
    unfold fmtJV
    rw [if_neg (hne (by decide)), if_neg (hne (by decide)), if_neg (hne (by decide)),
      if_neg (hne (by decide)), if_neg (hne (by decide)), if_neg (hne (by decide)),
      if_neg (hne (by decide)), if_neg (hne (by decide))]
  cases t with
  | object cls => exact hother rfl (Or.inl rfl)
  | array elem => exact hother rfl (Or.inr rfl)
  | _ => rfl

theorem desc_isFp (t : ParamType) :
    (t.desc = str "F" ∨ t.desc = str "D") ↔ t.isFp = true := by
  have hfloat : str "F" = [70] := by decide
  have hdouble : str "D" = [68] := by decide
  rw [hfloat, hdouble]
  cases t <;> simp [ParamType.desc, ParamType.isFp]

end JniProbe
