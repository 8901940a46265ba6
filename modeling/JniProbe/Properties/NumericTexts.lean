import JniProbe.System.FixedArgs
import JniProbe.System.Scenario

/-!
Numbers in the lines are texts of general registers: the argument registers by
index for arguments, `x0` for results. They are the numbers of the call where
no floating-point type is involved, and only there, because a floating-point
value is in a vector register that the probes do not record.
-/

namespace JniProbe

open GoText GoFormat Aapcs64

/-! ### The printed arguments -/

/-- The texts that `renderGeneric` joins, from the second argument on. -/
def genericParts (e : Evt) (slot : Nat) (c : Caches) (mr : Option UserMemory) : List Bytes :=
  ((slotArgs slot).zip e.a.toList).tail.map (fun p => fmtArg c mr p.1 p.2)

theorem renderGeneric_eq (e : Evt) {slot : Nat} (c : Caches) (mr : Option UserMemory)
    (h : slotArgs slot ≠ []) :
    renderGeneric e slot c mr =
      join ((genericParts e slot c mr).filter (· ≠ [])) (str ", ") := by
  rw [renderGeneric, if_neg h]
  rfl

theorem genericParts_get (e : Evt) {slot : Nat} (c : Caches) (mr : Option UserMemory) {i : Nat}
    {t : Bytes} (ht : (slotArgs slot)[i + 1]? = some t) {text : Bytes}
    (htext : (genericParts e slot c mr)[i]? = some text) :
    ∃ k : Fin nargs, k.val = i + 1 ∧ text = fmtArg c mr t (e.a.get k) := by
  rw [genericParts, List.getElem?_map, List.getElem?_tail] at htext
  obtain ⟨⟨t', v⟩, hpair, rfl⟩ := Option.map_eq_some_iff.mp htext
  obtain ⟨ht', hv⟩ := List.getElem?_zip_eq_some.mp hpair
  obtain rfl : t = t' := Option.some.inj (ht.symm.trans ht')
  obtain ⟨hlt, rfl⟩ := List.getElem?_eq_some_iff.mp hv
  rw [Vector.length_toList] at hlt
  exact ⟨⟨i + 1, hlt⟩, rfl, by rw [Vector.getElem_toList]; rfl⟩

theorem genericParts_recorded (e : Evt) {slot : Nat} (c : Caches) (mr : Option UserMemory) {i : Nat}
    {t : Bytes} (ht : (slotArgs slot)[i + 1]? = some t) (hi : i + 1 < nargs) :
    (genericParts e slot c mr)[i]? = some (fmtArg c mr t (e.a.get ⟨i + 1, hi⟩)) := by
  have hword : e.a.toList[i + 1]? = some (e.a.get ⟨i + 1, hi⟩) := by
    rw [List.getElem?_eq_some_iff]
    exact ⟨by rwa [Vector.length_toList], by rw [Vector.getElem_toList]; rfl⟩
  rw [genericParts, List.getElem?_map, List.getElem?_tail,
    (List.getElem?_zip_eq_some (z := (t, e.a.get ⟨i + 1, hi⟩))).mpr ⟨ht, hword⟩, Option.map_some]

/-- Whatever the registers hold besides the arguments, each number printed for
an argument is the text of the argument, or marked unknown. -/
def PrintsArgs (slot : Nat) : Prop :=
  ∀ (args : List Arg) (contents : Place → UInt64) (m : ProbeMaps) (d : UInt32) (ctx : ProbeCtx)
    (raw : Evt) (c : Caches) (mr : Option UserMemory),
    ArgsOf slot args → PassedFixed args contents →
    (∀ k : Fin nargs, ctx.parm.get k = contents (.gr k.val)) →
    ∀ (i : Nat) (t : Bytes) (a : Arg) (text : Bytes), (slotArgs slot)[i + 1]? = some t →
      isNumeric t = true → args[i + 1]? = some a →
      (genericParts (entryEvt m d ctx raw) slot c mr)[i]? = some text →
      text = a.text ∨ text = str "?"

/-- Whatever `v0` or `x0` holds that is not the result, a number printed for
the result is the text of the result, or marked unknown. -/
def PrintsResult (slot : Nat) : Prop :=
  ∀ (r : Arg) (v0 : UInt64) (nd : UInt32) (ctx : ProbeCtx) (raw : Evt) (c : Caches)
    (mr : Option UserMemory),
    r.OfType (slotRet slot) → isNumeric (slotRet slot) = true →
    Returned r (ctx.parm.get 0) v0 →
    fmtRet c mr (slotRet slot) (returnEvt nd ctx raw).rc = r.text ∨
      fmtRet c mr (slotRet slot) (returnEvt nd ctx raw).rc = str "?"

theorem fmtArg_numeric (c : Caches) (mr : Option UserMemory) {t : Bytes} (h : isNumeric t = true)
    (v : UInt64) : fmtArg c mr t v = fmtNumeric t v := by
  have hnot : ¬ (t = str "JNIEnv*" ∨ t = []) := by
    rintro (rfl | rfl)
    · revert h
      decide
    · revert h
      decide
  rw [fmtArg, if_neg hnot, if_pos h]

theorem fmtRet_numeric (c : Caches) (mr : Option UserMemory) {t : Bytes} (h : isNumeric t = true)
    (v : UInt64) : fmtRet c mr t v = fmtNumeric t v := by
  have hnot : ¬ (t = str "void" ∨ t = []) := by
    rintro (rfl | rfl)
    · revert h
      decide
    · revert h
      decide
  rw [fmtRet, if_neg hnot, if_pos h]

/-! ### Types without floating point -/

/-- The types of the arguments whose registers the record has. -/
def RecordedTypes (slot : Nat) (P : Bytes → Prop) : Prop :=
  ∀ i t, i + 1 < nargs → (slotArgs slot)[i + 1]? = some t → P t

theorem ArgsOf.banks {slot : Nat} {args : List Arg} (h : ArgsOf slot args) :
    args.map Arg.isFp = (slotArgs slot).map isFloatType := by
  apply List.ext_getElem?
  intro i
  rw [List.getElem?_map, List.getElem?_map]
  rcases Nat.lt_or_ge i args.length with hi | hi
  · have ha := List.getElem?_eq_getElem hi
    have ht := List.getElem?_eq_getElem (h.length ▸ hi)
    rw [ha, ht, Option.map_some, Option.map_some, (h.types i _ _ ha ht).isFp]
  · rw [List.getElem?_eq_none hi, List.getElem?_eq_none (h.length ▸ hi)]
    rfl

/-- Every function of the table takes its environment first. -/
theorem slotArgs_first {slot : Nat} {t : Bytes} (h : (slotArgs slot)[0]? = some t) :
    isFloatType t = false := by
  have hall : ∀ f ∈ jniSchema, ∀ t ∈ f.args[0]?, isFloatType t = false := by decide +kernel
  rw [slotArgs] at h
  split at h
  next f hf => exact hall f (List.mem_of_getElem? hf) t h
  · cases h

theorem printsArgs_of_general {slot : Nat} (h : RecordedTypes slot (isFloatType · = false)) :
    PrintsArgs slot := by
  intro args contents m d ctx raw c mr hargs hpassed hregs i t a text ht hnumeric ha htext
  obtain ⟨k, hk, rfl⟩ := genericParts_get _ c mr ht htext
  have hlt : i + 1 < nargs := hk ▸ k.isLt
  have hgeneral : ∀ j ≤ i + 1, (args.map Arg.isFp)[j]? = some false := by
    intro j hj
    have hlen := (List.getElem?_eq_some_iff.mp ht).1
    have htype := List.getElem?_eq_getElem (show j < (slotArgs slot).length by omega)
    rw [hargs.banks, List.getElem?_map, htype, Option.map_some, Option.some.injEq]
    cases j with
    | zero => exact slotArgs_first htype
    | succ j => exact h j _ (by omega) htype
  have hword := hpassed.register ha (show i + 1 < 8 by unfold nargs at hlt; omega) hgeneral
  rw [fmtArg_numeric c mr hnumeric, entryEvt_a, hregs k, hk]
  exact Or.inl (fmtNumeric_of_inUnion (hargs.types (i + 1) a t ha ht) hnumeric hword)

theorem printsResult_of_general {slot : Nat} (h : isFloatType (slotRet slot) = false) :
    PrintsResult slot := by
  intro r v0 nd ctx raw c mr hr hnumeric hreturned
  have hbank : r.isFp = false := hr.isFp.trans h
  rw [Returned, hbank] at hreturned
  rw [fmtRet_numeric c mr hnumeric]
  exact Or.inl (fmtNumeric_of_inUnion hr hnumeric hreturned)

/-! ### Types with floating point -/

namespace Arg

/-- The value of a type that zero words hold. -/
def zeroOf (t : Bytes) : Arg :=
  if t = str "jboolean" then jboolean 0
  else if t = str "jbyte" then jbyte 0
  else if t = str "jchar" then jchar 0
  else if t = str "jshort" then jshort 0
  else if t = str "jint" ∨ t = str "jsize" then jint 0
  else if t = str "jlong" then jlong 0
  else if t = str "jfloat" then jfloat 0
  else if t = str "jdouble" then jdouble 0
  else ref 0

/-- The number one of a floating-point type, and its word. -/
def oneOf (t : Bytes) : Arg :=
  if t = str "jfloat" then jfloat 0x3f800000 else jdouble 0x3ff0000000000000

def oneWord (t : Bytes) : UInt64 := if t = str "jfloat" then 0x3f800000 else 0x3ff0000000000000

theorem zeroOf_ofType (t : Bytes) : (zeroOf t).OfType t := by
  unfold zeroOf
  repeat' split
  all_goals first | assumption | skip
  simp only [OfType, isNumeric, List.contains_cons, List.contains_nil, Bool.or_false,
    Bool.or_eq_false_iff, beq_eq_false_iff_ne]
  tauto

theorem zeroOf_inUnion (t : Bytes) : (zeroOf t).InUnion 0 := by
  unfold zeroOf
  repeat' split
  all_goals rfl

variable {t : Bytes} (h : isFloatType t = true)
include h

theorem oneOf_ofType : (oneOf t).OfType t := by
  simp only [isFloatType, Bool.or_eq_true, beq_iff_eq] at h
  rcases h with rfl | rfl <;> rfl

theorem oneOf_inUnion : (oneOf t).InUnion (oneWord t) := by
  simp only [isFloatType, Bool.or_eq_true, beq_iff_eq] at h
  rcases h with rfl | rfl <;> rfl

theorem isNumeric_of_float : isNumeric t = true := by
  simp only [isFloatType, Bool.or_eq_true, beq_iff_eq] at h
  rcases h with rfl | rfl <;> rfl

/-- A register that holds zero is printed as zero, which is not one. -/
theorem oneOf_text : fmtNumeric t 0 ≠ (oneOf t).text ∧ fmtNumeric t 0 ≠ str "?" := by
  simp only [isFloatType, Bool.or_eq_true, beq_iff_eq] at h
  rcases h with rfl | rfl <;> decide +kernel

end Arg

section
variable {slot i : Nat} {t : Bytes}

/-- Zero for all arguments but the floating-point one, which is one. -/
def oneAmongZeros (slot i : Nat) (t : Bytes) : List Arg :=
  ((slotArgs slot).map Arg.zeroOf).set i (Arg.oneOf t)

theorem oneAmongZeros_get (ht : (slotArgs slot)[i]? = some t) (j : Nat) :
    (oneAmongZeros slot i t)[j]? =
      if i = j then some (Arg.oneOf t) else (slotArgs slot)[j]?.map Arg.zeroOf := by
  have hlt := (List.getElem?_eq_some_iff.mp ht).1
  rw [oneAmongZeros, List.getElem?_set, List.length_map, List.getElem?_map]
  split
  · rfl
  · rfl

theorem oneAmongZeros_argsOf (ht : (slotArgs slot)[i]? = some t) (hfloat : isFloatType t = true) :
    ArgsOf slot (oneAmongZeros slot i t) := by
  constructor
  · rw [oneAmongZeros, List.length_set, List.length_map]
  · intro j a u ha hu
    rw [oneAmongZeros_get ht] at ha
    split at ha
    next heq =>
      subst heq
      obtain rfl := Option.some.inj ha
      obtain rfl : t = u := Option.some.inj (ht.symm.trans hu)
      exact Arg.oneOf_ofType hfloat
    next =>
      rw [hu, Option.map_some, Option.some.injEq] at ha
      rw [← ha]
      exact Arg.zeroOf_ofType u

/-- Only the place of the floating-point argument is not zero. -/
def oneContents (slot i : Nat) (t : Bytes) : Place → UInt64 := fun p =>
  if (place 8 8 ((oneAmongZeros slot i t).map Arg.isFp))[i]? = some p then Arg.oneWord t else 0

theorem oneContents_passed (ht : (slotArgs slot)[i]? = some t) (hfloat : isFloatType t = true) :
    PassedFixed (oneAmongZeros slot i t) (oneContents slot i t) := by
  intro j a p ha hp
  rw [oneAmongZeros_get ht] at ha
  split at ha
  next heq =>
    subst heq
    obtain rfl := Option.some.inj ha
    rw [oneContents, if_pos hp]
    exact Arg.oneOf_inUnion hfloat
  next hne =>
    obtain ⟨u, -, rfl⟩ := Option.map_eq_some_iff.mp ha
    have hother : ¬ (place 8 8 ((oneAmongZeros slot i t).map Arg.isFp))[i]? = some p := by
      intro hi
      have hlt := (List.getElem?_eq_some_iff.mp hi).1
      exact hne ((List.getElem?_inj hlt (place_nodup 8 8 _)).mp (hi.trans hp.symm))
    rw [oneContents, if_neg hother]
    exact Arg.zeroOf_inUnion u

theorem oneContents_register (ht : (slotArgs slot)[i]? = some t) (hfloat : isFloatType t = true)
    (k : Nat) : oneContents slot i t (.gr k) = 0 := by
  have hother : ¬ (place 8 8 ((oneAmongZeros slot i t).map Arg.isFp))[i]? = some (.gr k) := by
    intro hi
    have hbank := (general_of_gr 8 8 hi).1
    rw [List.getElem?_map, oneAmongZeros_get ht, if_pos rfl, Option.map_some,
      (Arg.oneOf_ofType hfloat).isFp, hfloat] at hbank
    cases hbank
  rw [oneContents, if_neg hother]

end

/-- Registers that are zero, with memory that cannot be read. -/
def zeroCtx : ProbeCtx := ⟨1, 1, 0, 0, Vector.replicate nargs 0, 0, fun _ => none, -1⟩

theorem zeroCtx_parm (k : Fin nargs) : zeroCtx.parm.get k = 0 := Vector.getElem_replicate k.isLt

theorem not_printsArgs_of_float {slot i : Nat} {t : Bytes} (hi : i + 1 < nargs)
    (ht : (slotArgs slot)[i + 1]? = some t) (hfloat : isFloatType t = true) :
    ¬ PrintsArgs slot := by
  intro hprints
  have hregs (k : Fin nargs) : zeroCtx.parm.get k = oneContents slot (i + 1) t (.gr k.val) := by
    rw [zeroCtx_parm, oneContents_register ht hfloat]
  have harg : (oneAmongZeros slot (i + 1) t)[i + 1]? = some (Arg.oneOf t) := by
    rw [oneAmongZeros_get ht, if_pos rfl]
  have htext := hprints _ _ (Scenario.session ∅).maps 0 zeroCtx Scenario.blank newCaches none
    (oneAmongZeros_argsOf ht hfloat) (oneContents_passed ht hfloat) hregs i t _ _ ht
    (Arg.isNumeric_of_float hfloat) harg (genericParts_recorded _ newCaches none ht hi)
  rw [entryEvt_a, zeroCtx_parm, fmtArg_numeric newCaches none
    (Arg.isNumeric_of_float hfloat)] at htext
  obtain ⟨hone, hunknown⟩ := Arg.oneOf_text hfloat
  exact htext.elim hone hunknown

theorem not_printsResult_of_float {slot : Nat} (hfloat : isFloatType (slotRet slot) = true) :
    ¬ PrintsResult slot := by
  intro hprints
  have hreturned : Returned (Arg.oneOf (slotRet slot)) (zeroCtx.parm.get 0)
      (Arg.oneWord (slotRet slot)) := by
    rw [Returned, (Arg.oneOf_ofType hfloat).isFp, hfloat, if_pos rfl]
    exact Arg.oneOf_inUnion hfloat
  have htext := hprints _ _ 0 zeroCtx Scenario.blank newCaches none (Arg.oneOf_ofType hfloat)
    (Arg.isNumeric_of_float hfloat) hreturned
  have hrc : (returnEvt 0 zeroCtx Scenario.blank).rc = 0 := zeroCtx_parm 0
  rw [hrc, fmtRet_numeric newCaches none (Arg.isNumeric_of_float hfloat)] at htext
  obtain ⟨hone, hunknown⟩ := Arg.oneOf_text hfloat
  exact htext.elim hone hunknown

/-- The numbers printed for the arguments of a function that is no call
function are the real ones exactly when no recorded argument is of a
floating-point type, and those printed for results exactly when the result is not. -/
theorem numbers_real_iff (slot : Nat) :
    (isCallMethod (slotName slot) = none →
      (PrintsArgs slot ↔ RecordedTypes slot (isFloatType · = false))) ∧
    (PrintsResult slot ↔ isFloatType (slotRet slot) = false) := by
  constructor
  · intro _
    constructor
    · intro hprints i t hi ht
      by_contra hfloat
      exact not_printsArgs_of_float hi ht (Bool.not_eq_false _ ▸ hfloat) hprints
    · exact printsArgs_of_general
  · constructor
    · intro hprints
      by_contra hfloat
      exact not_printsResult_of_float (Bool.not_eq_false _ ▸ hfloat) hprints
    · exact printsResult_of_general

/-- `SetIntField` and `SetFloatField`. -/
theorem numbers_real_iff_set_field :
    (PrintsArgs 109 ↔ RecordedTypes 109 (isFloatType · = false)) ∧
      (PrintsArgs 111 ↔ RecordedTypes 111 (isFloatType · = false)) :=
  ⟨(numbers_real_iff 109).1 (by decide +kernel), (numbers_real_iff 111).1 (by decide +kernel)⟩

/-- `SetFloatField(obj, id, 1.0)` is printed with the number in `x3`, and
`GetFloatField` with the one in `x0`. -/
theorem float_field_from_general_register :
    ¬ ∀ slot, (isCallMethod (slotName slot) = none → PrintsArgs slot) ∧ PrintsResult slot := by
  intro hclaim
  have htype : (slotArgs 111)[2 + 1]? = some (str "jfloat") := by decide +kernel
  exact not_printsArgs_of_float (by decide) htype rfl ((hclaim 111).1 (by decide +kernel))

end JniProbe
