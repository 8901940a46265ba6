import JniProbe.Lib.Aapcs64
import JniProbe.Bpf.Capture
import JniProbe.Loader.Descriptors
import JniProbe.Loader.Trace

/-!
The arguments of a call as the C compiler passes them, and what the BPF side
captures of them. The same arguments can be passed one by one, as a `va_list`
or as an array of `jvalue`; a call function and its siblings with the suffixes
`V` and `A` differ in nothing else.
-/

namespace JniProbe

open GoText GoFormat Aapcs64

/-! ### Argument values -/

inductive Arg where
  | jboolean (v : UInt8)
  | jbyte (v : Int8)
  | jchar (v : UInt16)
  | jshort (v : Int16)
  | jint (v : Int32)
  | jlong (v : Int64)
  | jfloat (bits : UInt32)
  | jdouble (bits : UInt64)
  | ref (v : UInt64)

/-- The bits of a `float` converted to `double`. -/
def widen (bits : UInt32) : UInt64 :=
  let sign := bits.toNat / 2 ^ 31
  let exp := bits.toNat / 2 ^ 23 % 2 ^ 8
  let frac := bits.toNat % 2 ^ 23
  let magnitude :=
    if exp = 255 then
      2047 * 2 ^ 52 + if frac = 0 then 0 else 2 ^ 51 + frac % 2 ^ 22 * 2 ^ 29 -- a quiet NaN
    else if exp = 0 then
      if frac = 0 then 0
      else (Nat.log2 frac + 874) * 2 ^ 52 + (frac - 2 ^ Nat.log2 frac) * 2 ^ (52 - Nat.log2 frac)
    else (exp + 896) * 2 ^ 52 + frac * 2 ^ 29
  UInt64.ofNat (sign * 2 ^ 63 + magnitude)

namespace Arg

def isFp : Arg → Bool
  | jfloat _ | jdouble _ => true
  | _ => false

/-- The word is a `jvalue` that holds the argument; its other bytes are arbitrary. -/
def InUnion : Arg → UInt64 → Prop
  | jboolean v, w => w.toUInt8 = v
  | jbyte v, w => w.toUInt8.toInt8 = v
  | jchar v, w => w.toUInt16 = v
  | jshort v, w => w.toUInt16.toInt16 = v
  | jint v, w => w.toUInt32.toInt32 = v
  | jlong v, w => w.toInt64 = v
  | jfloat bits, w => w.toUInt32 = bits
  | jdouble bits, w => w = bits
  | ref v, w => w = v

/-- The word is a register or stack slot that holds the argument after the
default promotions; the upper half of an integer is arbitrary. -/
def InSlot : Arg → UInt64 → Prop
  | jboolean v, w => w.toUInt32 = v.toUInt32
  | jbyte v, w => w.toUInt32.toInt32 = v.toInt32
  | jchar v, w => w.toUInt32 = v.toUInt32
  | jshort v, w => w.toUInt32.toInt32 = v.toInt32
  | jint v, w => w.toUInt32.toInt32 = v
  | jlong v, w => w.toInt64 = v
  | jfloat bits, w => w = widen bits
  | jdouble bits, w => w = bits
  | ref v, w => w = v

/-- A promoted integer can be read like the member of a `jvalue`. -/
theorem InSlot.inUnion {a : Arg} {w : UInt64} (h : a.InSlot w) (hgeneral : a.isFp = false) :
    a.InUnion w := by
  cases a with
  | jboolean v => simpa [InUnion] using congrArg UInt32.toUInt8 h
  | jbyte v =>
      have hlow : w.toUInt32.toInt32.toInt8 = w.toUInt8.toInt8 := by
        apply Int8.toBitVec_inj.mp
        simp [BitVec.signExtend_eq_setWidth_of_le]
      simpa [InUnion, ← hlow] using congrArg Int32.toInt8 h
  | jchar v => simpa [InUnion] using congrArg UInt32.toUInt16 h
  | jshort v =>
      have hlow : w.toUInt32.toInt32.toInt16 = w.toUInt16.toInt16 := by
        apply Int16.toBitVec_inj.mp
        simp [BitVec.signExtend_eq_setWidth_of_le]
      simpa [InUnion, ← hlow] using congrArg Int32.toInt16 h
  | jint v => exact h
  | jlong v => exact h
  | jfloat bits => cases hgeneral
  | jdouble bits => cases hgeneral
  | ref v => exact h

end Arg

/-- An argument of the parameter's type. -/
def ParamType.Accepts : ParamType → Arg → Prop
  | boolean, .jboolean _ => True
  | byte, .jbyte _ => True
  | char, .jchar _ => True
  | short, .jshort _ => True
  | int, .jint _ => True
  | long, .jlong _ => True
  | float, .jfloat _ => True
  | double, .jdouble _ => True
  | object _, .ref _ => True
  | array _, .ref _ => True
  | _, _ => False

theorem ParamType.Accepts.isFp {t : ParamType} {a : Arg} (h : t.Accepts a) : a.isFp = t.isFp := by
  cases t <;> cases a <;> first | rfl | cases h

theorem fmtBoolean_congr {w w' : UInt64} (h : w.toUInt8 = w'.toUInt8) :
    fmtBoolean w = fmtBoolean w' := by
  have hlow (x : UInt64) : x &&& 0xff = x.toUInt8.toUInt64 := by
    apply UInt64.toNat_inj.mp
    simpa using Nat.and_two_pow_sub_one_eq_mod x.toNat 8
  simp only [fmtBoolean, hlow, h]

theorem fmtChar_congr {w w' : UInt64} (h : w.toUInt16 = w'.toUInt16) :
    fmtChar w = fmtChar w' := by
  have hlow (x : UInt64) : x &&& 0xffff = x.toUInt16.toUInt64 := by
    apply UInt64.toNat_inj.mp
    simpa using Nat.and_two_pow_sub_one_eq_mod x.toNat 16
  simp only [fmtChar, hlow, h]

/-- Two words that hold the same argument are rendered alike. -/
theorem fmtJV_of_inUnion {t : ParamType} {a : Arg} (ht : t.Accepts a) {w w' : UInt64}
    (h : a.InUnion w) (h' : a.InUnion w') (c : Caches) (mr : Option UserMemory) :
    fmtJV t.desc w c mr = fmtJV t.desc w' c mr := by
  rw [fmtJV_desc, fmtJV_desc]
  cases t <;> cases a <;> cases ht
  case boolean.jboolean v => exact fmtBoolean_congr (h.trans h'.symm)
  case byte.jbyte v => simp only [fmtByte, show w.toUInt8.toInt8 = w'.toUInt8.toInt8 from
    h.trans h'.symm]
  case char.jchar v => exact fmtChar_congr (h.trans h'.symm)
  case short.jshort v => simp only [fmtShort, show w.toUInt16.toInt16 = w'.toUInt16.toInt16 from
    h.trans h'.symm]
  case int.jint v => simp only [fmtInt, show w.toUInt32.toInt32 = w'.toUInt32.toInt32 from
    h.trans h'.symm]
  case long.jlong v => simp only [fmtLong, show w.toInt64 = w'.toInt64 from h.trans h'.symm]
  case float.jfloat bits => simp only [fmtFloat, show w.toUInt32 = w'.toUInt32 from
    h.trans h'.symm]
  case double.jdouble bits => rw [show w = w' from h.trans h'.symm]
  case object.ref cls v => rw [show w = w' from h.trans h'.symm]
  case array.ref elem v => rw [show w = w' from h.trans h'.symm]

/-! ### Placing the arguments -/

/-- The places hold the arguments, with `G` general and `V` vector registers
left for them. -/
def Passed (G V : Nat) (args : List Arg) (contents : Place → UInt64) : Prop :=
  ∀ (i : Nat) (a : Arg) (p : Place), args[i]? = some a →
    (place G V (args.map Arg.isFp))[i]? = some p → a.InSlot (contents p)

/-- The word that a general argument is passed in. -/
theorem Passed.general {G V : Nat} {args : List Arg} {contents : Place → UInt64}
    (h : Passed G V args contents) {i : Nat} {a : Arg} (ha : args[i]? = some a)
    (hgeneral : a.isFp = false) :
    a.InUnion (contents (spot G V (before false (args.map Arg.isFp) i)
      (before true (args.map Arg.isFp) i))) := by
  have hbank : (args.map Arg.isFp)[i]? = some false := by simp [ha, hgeneral]
  exact (h i a _ ha (place_general G V hbank)).inUnion hgeneral

/-! ### The call functions and what is captured at them -/

/-- The slots of the call functions that take their arguments one by one; the
`V` and `A` variants follow each of them. -/
def variadicSlots : List Nat :=
  28 :: ((List.range 20).map (fun i => 34 + 3 * i) ++ (List.range 10).map (fun i => 114 + 3 * i))

/-- The decoder of each variant, and the register of the method id. -/
theorem variadicSlots_spec : ∀ slot ∈ variadicSlots,
    slotName (slot + 1) = slotName slot ++ str "V" ∧
    slotName (slot + 2) = slotName slot ++ str "A" ∧
    hasSuffix (slotName slot) (str "A") = false ∧ hasSuffix (slotName slot) (str "V") = false ∧
    hasSuffix (slotName (slot + 1)) (str "A") = false ∧
    hasSuffix (slotName (slot + 1)) (str "V") = true ∧
    hasSuffix (slotName (slot + 2)) (str "A") = true ∧
    isCallMethod (slotName (slot + 1)) = isCallMethod (slotName slot) ∧
    isCallMethod (slotName (slot + 2)) = isCallMethod (slotName slot) ∧
    (isCallMethod (slotName slot) = some 2 ∨ isCallMethod (slotName slot) = some 3) := by
  decide +kernel

/-- The snapshot of the arguments is taken at this offset of the function. -/
structure Session.Captures (S : Session) (off : UInt64) (slot : Nat) : Prop where
  slot : S.slotAt off = some slot
  kind : (S.maps.argkind.lookup off).isSome = true
  index : (S.maps.argidx.lookup off).isSome = true

def argKind (nm : Bytes) : UInt8 :=
  if hasSuffix nm (str "A") then 1 else if hasSuffix nm (str "V") then 2 else 3

theorem Session.mem_argPuts (S : Session) {p : UInt64 × UInt8 × UInt8} (h : p ∈ S.argPuts) :
    ∃ slot ix, S.slotAt p.1 = some slot ∧ isCallMethod (slotName slot) = some ix ∧
      p.2 = (argKind (slotName slot), (ix.val + 1).toUInt8) := by
  obtain ⟨⟨off, slot⟩, hmem, hput⟩ := List.mem_filterMap.mp h
  obtain ⟨ix, hix, rfl⟩ := Option.map_eq_some_iff.mp hput
  exact ⟨slot, ix, AList.mem_lookup_iff.mpr hmem, hix, rfl⟩

theorem Session.argPuts_nodup (S : Session) : (S.argPuts.map Prod.fst).Nodup := by
  rw [List.Nodup, List.pairwise_map]
  apply List.pairwise_filterMap.mpr
  apply (List.nodupKeys_iff_pairwise.mp S.offsets.nodupKeys).imp
  intro p p' hne b hb b' hb'
  obtain ⟨ix, -, rfl⟩ := Option.map_eq_some_iff.mp hb
  obtain ⟨ix', -, rfl⟩ := Option.map_eq_some_iff.mp hb'
  exact hne

/-- What a map that `runProbe` fills from `argPuts` holds for an offset. -/
theorem Session.argPuts_lookup (S : Session) (column : UInt8 × UInt8 → UInt8) {off : UInt64}
    {slot : Nat} (hslot : S.slotAt off = some slot) {b : UInt8}
    (h : (BoundedMap.fill (S.argPuts.map (fun p => (p.1, column p.2))) :
      BoundedMap UInt64 UInt8 2048).lookup off = some b) :
    ∃ ix, isCallMethod (slotName slot) = some ix ∧
      b = column (argKind (slotName slot), (ix.val + 1).toUInt8) := by
  have hfst : (S.argPuts.map (fun p => (p.1, column p.2))).map Prod.fst =
      S.argPuts.map Prod.fst := by
    simp [Function.comp_def]
  rw [BoundedMap.fill_lookup _ (by rw [hfst]; exact S.argPuts_nodup)] at h
  obtain ⟨q, hfind, rfl⟩ := Option.map_eq_some_iff.mp h
  have hkey : q.1 = off := by simpa using List.find?_some hfind
  have hmem := List.mem_of_mem_take (List.mem_of_find?_eq_some hfind)
  obtain ⟨p, hp, rfl⟩ := List.mem_map.mp hmem
  obtain ⟨slot', ix, hslot', hix, hput⟩ := S.mem_argPuts hp
  obtain rfl : slot' = slot := by
    rw [← hkey] at hslot
    exact Option.some.inj (hslot'.symm.trans hslot)
  exact ⟨ix, hix, by simp only [hput]⟩

/-- The kind and the register recorded for an offset. -/
theorem Session.Captures.lookups {S : Session} {off : UInt64} {slot : Nat} {ix : Fin nargs}
    (h : S.Captures off slot) (hix : isCallMethod (slotName slot) = some ix) :
    S.maps.argkind.lookup off = some (argKind (slotName slot)) ∧
      S.maps.argidx.lookup off = some (ix.val + 1).toUInt8 := by
  obtain ⟨k, hk⟩ := Option.isSome_iff_exists.mp h.kind
  obtain ⟨x, hx⟩ := Option.isSome_iff_exists.mp h.index
  obtain ⟨ix', hix', rfl⟩ := S.argPuts_lookup Prod.fst h.slot hk
  obtain ⟨ix'', hix'', rfl⟩ := S.argPuts_lookup Prod.snd h.slot hx
  obtain rfl : ix'' = ix := Option.some.inj (hix''.symm.trans hix)
  exact ⟨hk, hx⟩

end JniProbe
