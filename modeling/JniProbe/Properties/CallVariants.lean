import JniProbe.Loader.Learning
import JniProbe.System.MadeCalls

/-!
The three variants of a call function. Each decoder shows at every position
the argument that was passed there or `?`, except that `decodeDirect` takes
floating-point arguments from general registers and `decodeV` does not count
those that were passed on the stack.
-/

namespace JniProbe

open GoText Aapcs64

/-- The argument texts that `describeCall` joins. -/
def callArgs (e : Evt) (nm : Bytes) (c : Caches) (mr : Option UserMemory) : Option (List Bytes) :=
  (isCallMethod nm).bind (fun midIdx =>
    (c.idName (e.a.get midIdx)).map (fun full =>
      decodeArgs e nm (parseParams (splitNameSig full).2) c mr))

theorem describeCall_of_callArgs {e : Evt} {nm : Bytes} {c : Caches} {mr : Option UserMemory}
    {args : List Bytes} (h : callArgs e nm c mr = some args) :
    ∃ head, describeCall e nm c mr =
      (head ++ str "(" ++ join args (str ", ") ++ str ")", true) := by
  obtain ⟨midIdx, hidx, h⟩ := Option.bind_eq_some_iff.mp h
  obtain ⟨full, hfull, rfl⟩ := Option.map_eq_some_iff.mp h
  simp only [describeCall, hidx, hfull]
  exact ⟨_, rfl⟩

/-- Lists of argument texts of one length that differ only where one has `?`. -/
def Agree (l l' : List Bytes) : Prop :=
  l.length = l'.length ∧ ∀ (i : Nat) (s s' : Bytes), l[i]? = some s → l'[i]? = some s' →
    s ≠ str "?" → s' ≠ str "?" → s = s'

/-- Calls of one method with the same arguments through the three functions
from `slot` on show argument lists that agree. -/
def VariantsAgree (S : Session) (slot : Nat) (off offV offA : UInt64) (d : Descriptor)
    (G V : Nat) : Prop :=
  ∀ ix args c mr mid full e eV eA,
    isCallMethod (slotName slot) = some ix → List.Forall₂ ParamType.Accepts d.params args →
    c.idName mid = some full → (splitNameSig full).2 = d.text →
    CalledDirect S off ix mid args e → CalledVaList S offV ix G V mid args eV →
    CalledJvalues S offA ix mid args eA →
    ∃ l lV lA, callArgs e (slotName slot) c mr = some l ∧
      callArgs eV (slotName slot ++ str "V") c mr = some lV ∧
      callArgs eA (slotName slot ++ str "A") c mr = some lA ∧
      Agree l lV ∧ Agree l lA ∧ Agree lV lA

/-- No floating-point parameter among those whose registers are captured. -/
def GeneralFirst (n : Nat) (params : List ParamType) : Prop :=
  ∀ i < n, ∀ t ∈ params[i]?, t.isFp = false

/-- Where a captured general parameter is on the stack of the `va_list`, no
floating-point one before it is. -/
def SpillInOrder (G V : Nat) (params : List ParamType) : Prop :=
  ∀ i < ncapWords, ∀ t ∈ params[i]?, t.isFp = false →
    G ≤ before false (params.map ParamType.isFp) i →
    before true (params.map ParamType.isFp) i ≤ V

instance (n : Nat) (params : List ParamType) : Decidable (GeneralFirst n params) :=
  inferInstanceAs (Decidable (∀ i < n, ∀ t ∈ params[i]?, t.isFp = false))

instance (G V : Nat) (params : List ParamType) : Decidable (SpillInOrder G V params) :=
  inferInstanceAs (Decidable (∀ i < ncapWords, ∀ t ∈ params[i]?, t.isFp = false →
    G ≤ before false (params.map ParamType.isFp) i →
    before true (params.map ParamType.isFp) i ≤ V))

/-! ### What the decoders show -/

section Shown

variable (c : Caches) (mr : Option UserMemory) (params : List ParamType) (args : List Arg)

/-- Up to position `n` each text is `?` or the argument there. -/
def Shows (n : Nat) (l : List Bytes) : Prop :=
  l.length = params.length ∧ ∀ (i : Nat) (t : ParamType) (a : Arg), i < n → params[i]? = some t →
    args[i]? = some a →
    l[i]? = some (str "?") ∨ ∃ w, a.InUnion w ∧ l[i]? = some (fmtJV t.desc w c mr)

variable {c mr params args}

theorem Shows.agree (hargs : List.Forall₂ ParamType.Accepts params args) {n : Nat}
    {l l' : List Bytes} (h : Shows c mr params args n l) (h' : Shows c mr params args n l')
    (hbeyond : ∀ (i : Nat) (t : ParamType), n ≤ i → params[i]? = some t →
      l[i]? = some (str "?") ∨ l'[i]? = some (str "?")) : Agree l l' := by
  refine ⟨h.1.trans h'.1.symm, ?_⟩
  intro i s s' hs hs' hne hne'
  have hi : i < params.length := by
    rw [← h.1]
    exact (List.getElem?_eq_some_iff.mp hs).1
  have ht := List.getElem?_eq_getElem hi
  have ha := List.getElem?_eq_getElem (hargs.length_eq ▸ hi)
  have hunknown {x : List Bytes} {y : Bytes} (hx : x[i]? = some (str "?")) (hy : x[i]? = some y) :
      y = str "?" := Option.some.inj (hy.symm.trans hx)
  by_cases hn : i < n
  · rcases h.2 i _ _ hn ht ha with hq | ⟨w, hw, hshown⟩
    · exact absurd (hunknown hq hs) hne
    · rcases h'.2 i _ _ hn ht ha with hq | ⟨w', hw', hshown'⟩
      · exact absurd (hunknown hq hs') hne'
      · rw [hshown, Option.some.injEq] at hs
        rw [hshown', Option.some.injEq] at hs'
        rw [← hs, ← hs']
        exact fmtJV_of_inUnion (hargs.get hi (hargs.length_eq ▸ hi)) hw hw' c mr
  · rcases hbeyond i _ (by omega) ht with hq | hq
    · exact absurd (hunknown hq hs) hne
    · exact absurd (hunknown hq hs') hne'

end Shown

theorem banks_eq {params : List ParamType} {args : List Arg}
    (h : List.Forall₂ ParamType.Accepts params args) :
    args.map Arg.isFp = params.map ParamType.isFp := by
  induction h with
  | nil => rfl
  | cons haccepts _ ih => rw [List.map_cons, List.map_cons, haccepts.isFp, ih]

section Decoders

variable {S : Session} {off : UInt64} {slot : Nat} {ix : Fin nargs} {mid : UInt64}
  {params : List ParamType} {args : List Arg} {e : Evt} (hcap : S.Captures off slot)
  (hix : isCallMethod (slotName slot) = some ix) (hrange : ix = 2 ∨ ix = 3)
  (c : Caches) (mr : Option UserMemory)
include hcap hix hrange

/-- `decodeA` shows the first arguments as they are. -/
theorem CalledJvalues.shown (hkind : argKind (slotName slot) = 1)
    (h : CalledJvalues S off ix mid args e) {i : Nat} {t : ParamType} {a : Arg}
    (hi : i < ncapWords) (ht : params[i]? = some t) (ha : args[i]? = some a) :
    ∃ w, a.InUnion w ∧
      (decodeA e (params.map ParamType.desc) c mr)[i]? = some (fmtJV t.desc w c mr) := by
  obtain ⟨ctx, p, hentry, hp, harray⟩ := h
  obtain ⟨w, hw, hunion⟩ := harray i a ha
  have hword : windowWord e.cap i = w := by
    rw [hentry.jvalues hcap hix hrange hkind hp]
    exact windowWord_captureWords hi hw
  have hdesc : (params.map ParamType.desc)[i]? = some t.desc := by simp [ht]
  refine ⟨w, hunion, ?_⟩
  rw [decodeA_getElem? e c mr _ hdesc, if_neg (by omega), hword]

variable (hargs : List.Forall₂ ParamType.Accepts params args)
include hargs

/-- `decodeV` shows the first arguments as they are when none of them is behind
a spilled floating-point one. -/
theorem CalledVaList.shows {G V : Nat} (hG : G ≤ 8) (hkind : argKind (slotName slot) = 2)
    (h : CalledVaList S off ix G V mid args e) (hspill : SpillInOrder G V params) :
    Shows c mr params args ncapWords (decodeV e (params.map ParamType.desc) c mr) := by
  obtain ⟨ctx, p, stk, top, offs, contents, hentry, hp, hlist⟩ := h
  obtain ⟨hvgoff, hvgr, hcapt, hcap2⟩ := hentry.vaList hcap hix hrange hkind hp hG hlist
  refine ⟨by simp [decodeV, length_decodeVFrom], ?_⟩
  intro i t a hi ht ha
  have hdesc : (params.map ParamType.desc)[i]? = some t.desc := by simp [ht]
  cases hfp : t.isFp with
  | true => exact Or.inl (decodeVFrom_fp e c mr _ _ _ hdesc ((desc_isFp t).mpr hfp))
  | false =>
      have hbanks := banks_eq hargs
      have hgeneral : a.isFp = false := by
        have hbank := congrArg (·[i]?) hbanks
        simpa [ht, ha, hfp] using hbank
      have hbank : (args.map Arg.isFp)[i]? = some false := by simp [ha, hgeneral]
      have hunion := hlist.passed.general ha hgeneral
      have hplace := List.mem_of_getElem? (place_general G V hbank)
      have horder := hspill i hi t ht hfp
      rw [hbanks] at hunion hplace
      have hword : generalWord e G (before false (params.map ParamType.isFp) i) =
          contents (spot G V (before false (params.map ParamType.isFp) i)
            (before true (params.map ParamType.isFp) i)) := by
        have hle := before_le false (params.map ParamType.isFp) i
        generalize before false (params.map ParamType.isFp) i = gp at *
        generalize before true (params.map ParamType.isFp) i = fp at *
        rw [← hbanks] at hplace
        by_cases hroom : gp < G
        · rw [spot, if_pos hroom] at hplace ⊢
          rw [generalWord, if_pos hroom, hcapt, windowWord_saved hG hroom (hlist.saved gp hplace)]
        · have hslot : gp - G + (fp - V) = gp - G := by
            have hinorder := horder (by omega)
            omega
          rw [spot, if_neg hroom, hslot] at hplace ⊢
          rw [generalWord, if_neg hroom, hcap2]
          exact windowWord_captureWords (by omega) (hlist.spilled _ hplace)
      refine Or.inr ⟨_, hunion, ?_⟩
      have hstart : e.vstk = stackCursor e G 0 := by simp [stackCursor]
      rw [decodeV, hvgoff, hstart, decodeVFrom_general e c mr params hG _ 0 ht hfp, Nat.zero_add,
        hword]
      · have hcap : ncapWords = 16 := rfl
        have hle := before_le false (params.map ParamType.isFp) i
        omega
      · intro hpos
        rw [hvgr]
        exact hlist.nonnull hpos

/-- `decodeDirect` shows the captured arguments as they are when all of them are
in general registers. -/
theorem CalledDirect.shows (hkind : argKind (slotName slot) = 3)
    (h : CalledDirect S off ix mid args e) (hgeneral : GeneralFirst (4 - ix.val) params) :
    Shows c mr params args ncapWords (decodeDirect e (params.map ParamType.desc) c mr) := by
  obtain ⟨ctx, contents, hentry, hregs⟩ := h
  obtain ⟨hncap, hwords⟩ := hentry.registers hcap hix hrange hkind hregs
  refine ⟨by simp [length_decodeDirect], ?_⟩
  intro i t a _ ht ha
  have hi : i < params.length := (List.getElem?_eq_some_iff.mp ht).1
  have hdesc : (params.map ParamType.desc)[i]? = some t.desc := by simp [ht]
  rw [decodeDirect_getElem? e c mr _ hdesc]
  by_cases hout : i ≥ e.ncap.toNat ∨ i ≥ 2
  · rw [if_pos hout]
    exact Or.inl rfl
  · rw [if_neg hout]
    have hlt : i < 4 - ix.val := by omega
    have hbanks := banks_eq hargs
    have hbefore : before true (params.map ParamType.isFp) i = 0 ∧
        before false (params.map ParamType.isFp) i = i := by
      apply before_of_general
      · simpa using Nat.le_of_lt hi
      · intro j hj
        have htj := List.getElem?_eq_getElem (show j < params.length by omega)
        simp [htj, hgeneral j (by omega) _ htj]
    have hunion := hregs.passed.general ha (by
      have hbank := congrArg (·[i]?) hbanks
      simpa [ht, ha, hgeneral i hlt t ht] using hbank)
    have hroom : i < 7 - ix.val := by omega
    rw [hbanks, hbefore.1, hbefore.2, spot, if_pos hroom, ← hwords i hlt] at hunion
    exact Or.inr ⟨_, hunion, rfl⟩

end Decoders

theorem callArgs_eq {e : Evt} {nm : Bytes} {c : Caches} {mr : Option UserMemory}
    {ix : Fin nargs} {mid : UInt64} {full : Bytes} {d : Descriptor}
    (hix : isCallMethod nm = some ix) (hmid : e.a.get ix = mid) (hfull : c.idName mid = some full)
    (hsig : (splitNameSig full).2 = d.text) :
    callArgs e nm c mr = some (decodeArgs e nm (d.params.map ParamType.desc) c mr) := by
  unfold callArgs
  rw [hix, Option.bind_some, hmid, hfull, Option.map_some, hsig, parseParams_text]

section Variants

variable {S : Session} {slot : Nat} (hslot : slot ∈ variadicSlots) {off offV offA : UInt64}
  (hcap : S.Captures off slot) (hcapV : S.Captures offV (slot + 1))
  (hcapA : S.Captures offA (slot + 2)) {ix : Fin nargs}
  (hix : isCallMethod (slotName slot) = some ix)
include hslot hix

theorem variants_index : isCallMethod (slotName (slot + 1)) = some ix ∧
    isCallMethod (slotName (slot + 2)) = some ix ∧ (ix = 2 ∨ ix = 3) := by
  obtain ⟨-, -, -, -, -, -, -, hV, hA, hrange⟩ := variadicSlots_spec slot hslot
  rw [hix] at hV hA
  refine ⟨hV, hA, ?_⟩
  rcases hrange with h | h
  · exact Or.inl (Option.some.inj (hix.symm.trans h))
  · exact Or.inr (Option.some.inj (hix.symm.trans h))

/-- What `describeCall` shows for the three records. -/
theorem variants_callArgs {d : Descriptor} {args : List Arg} {c : Caches} {mid : UInt64}
    {full : Bytes} {G V : Nat} {e eV eA : Evt} (mr : Option UserMemory)
    (hfull : c.idName mid = some full) (hsig : (splitNameSig full).2 = d.text)
    (he : CalledDirect S off ix mid args e) (heV : CalledVaList S offV ix G V mid args eV)
    (heA : CalledJvalues S offA ix mid args eA) :
    callArgs e (slotName slot) c mr = some (decodeDirect e (d.params.map ParamType.desc) c mr) ∧
    callArgs eV (slotName slot ++ str "V") c mr =
      some (decodeV eV (d.params.map ParamType.desc) c mr) ∧
    callArgs eA (slotName slot ++ str "A") c mr =
      some (decodeA eA (d.params.map ParamType.desc) c mr) := by
  obtain ⟨hnmV, hnmA, hA0, hV0, hA1, hV1, hA2, -⟩ := variadicSlots_spec slot hslot
  obtain ⟨hixV, hixA, -⟩ := variants_index hslot hix
  obtain ⟨ctx, contents, hentry, -⟩ := he
  obtain ⟨ctxV, p, stk, top, offs, contentsV, hentryV, -⟩ := heV
  obtain ⟨ctxA, p', hentryA, -⟩ := heA
  rw [← hnmV, ← hnmA, callArgs_eq hix hentry.method_eq hfull hsig,
    callArgs_eq hixV hentryV.method_eq hfull hsig, callArgs_eq hixA hentryA.method_eq hfull hsig]
  simp [decodeArgs, hA0, hV0, hA1, hV1, hA2]

include hcap hcapV hcapA

/-- Under the two conditions every decoder shows the arguments, so they agree. -/
theorem variantsAgree_of_ordered {d : Descriptor} {G V : Nat} (hG : G ≤ 8)
    (hgeneral : GeneralFirst (4 - ix.val) d.params) (hspill : SpillInOrder G V d.params) :
    VariantsAgree S slot off offV offA d G V := by
  intro ix' args c mr mid full e eV eA hix' hargs hfull hsig he heV heA
  obtain rfl : ix = ix' := Option.some.inj (hix.symm.trans hix')
  obtain ⟨hnmV, hnmA, hA0, hV0, hA1, hV1, hA2, -⟩ := variadicSlots_spec slot hslot
  obtain ⟨hixV, hixA, hrange⟩ := variants_index hslot hix
  obtain ⟨hl, hlV, hlA⟩ := variants_callArgs hslot hix mr hfull hsig he heV heA
  have hshows := he.shows hcap hix hrange c mr hargs (by simp [argKind, hA0, hV0]) hgeneral
  have hshowsV := heV.shows hcapV hixV hrange c mr hargs hG (by simp [argKind, hA1, hV1]) hspill
  have hshowsA : Shows c mr d.params args ncapWords
      (decodeA eA (d.params.map ParamType.desc) c mr) := by
    refine ⟨by simp [length_decodeA], ?_⟩
    intro i t a hi ht ha
    exact Or.inr (heA.shown hcapA hixA hrange c mr (by simp [argKind, hA2]) hi ht ha)
  -- beyond the captured words `decodeDirect` and `decodeA` show `?`
  have hbeyond (i : Nat) (t : ParamType) (hi : ncapWords ≤ i) (ht : d.params[i]? = some t) :
      (decodeDirect e (d.params.map ParamType.desc) c mr)[i]? = some (str "?") ∧
        (decodeA eA (d.params.map ParamType.desc) c mr)[i]? = some (str "?") := by
    have hdesc : (d.params.map ParamType.desc)[i]? = some t.desc := by simp [ht]
    have hwords : ncapWords = 16 := rfl
    rw [decodeDirect_getElem? e c mr _ hdesc, decodeA_getElem? eA c mr _ hdesc,
      if_pos (Or.inr (by omega)), if_pos hi]
    exact ⟨rfl, rfl⟩
  refine ⟨_, _, _, hl, hlV, hlA, ?_, ?_, ?_⟩
  · exact hshows.agree hargs hshowsV (fun i t hi ht => Or.inl (hbeyond i t hi ht).1)
  · exact hshows.agree hargs hshowsA (fun i t hi ht => Or.inl (hbeyond i t hi ht).1)
  · exact hshowsV.agree hargs hshowsA (fun i t hi ht => Or.inr (hbeyond i t hi ht).2)

end Variants

/-! ### Calls that tell a parameter's word from another -/

namespace ParamType

/-- The general argument that a word holds; floating-point arguments are zero. -/
def ofWord : ParamType → UInt64 → Arg
  | boolean, w => .jboolean w.toUInt8
  | byte, w => .jbyte w.toUInt8.toInt8
  | char, w => .jchar w.toUInt16
  | short, w => .jshort w.toUInt16.toInt16
  | int, w => .jint w.toUInt32.toInt32
  | long, w => .jlong w.toInt64
  | float, _ => .jfloat 0
  | double, _ => .jdouble 0
  | object _, w => .ref w
  | array _, w => .ref w

def slotWord (t : ParamType) (w : UInt64) : UInt64 := if t.isFp then 0 else w

theorem accepts_ofWord (t : ParamType) (w : UInt64) : t.Accepts (t.ofWord w) := by
  cases t <;> trivial

/-- The bits of a number just above one; the low half is one. -/
def mark : UInt64 := 0x3ff0000000000001

theorem ofWord_inSlot (t : ParamType) {w : UInt64} (hw : w = 0 ∨ w = mark) :
    (t.ofWord w).InSlot (t.slotWord w) := by
  rcases hw with rfl | rfl <;> cases t <;> rfl

theorem ofWord_inUnion (t : ParamType) {w : UInt64} (hw : w = 0 ∨ w = mark) :
    (t.ofWord w).InUnion (t.slotWord w) := by
  rcases hw with rfl | rfl <;> cases t <;> rfl

/-- A loader that knows one method and nothing else. -/
def onlyMethod (full : Bytes) : Caches := { newCaches with idName := fun _ => some full }

/-- Every type renders the two words differently. -/
theorem fmtJV_mark (t : ParamType) (full : Bytes) :
    fmtJV t.desc mark (onlyMethod full) none ≠ fmtJV t.desc 0 (onlyMethod full) none ∧
      fmtJV t.desc mark (onlyMethod full) none ≠ str "?" ∧
      fmtJV t.desc 0 (onlyMethod full) none ≠ str "?" := by
  have hobject (v : UInt64) : objClassName (onlyMethod full) none v =
      objClassName newCaches none v := rfl
  simp only [fmtJV_desc, hobject]
  cases t <;> dsimp only <;> decide +kernel

end ParamType

open ParamType (mark onlyMethod)

/-- Arguments of the parameters' types that hold the given words. -/
def samples (params : List ParamType) (word : Nat → UInt64) : List Arg :=
  params.mapIdx (fun i t => t.ofWord (word i))

def sampleWords (params : List ParamType) (word : Nat → UInt64) : List UInt64 :=
  params.mapIdx (fun i t => t.slotWord (word i))

section Samples

variable (params : List ParamType) {word : Nat → UInt64}
  (hword : ∀ i, word i = 0 ∨ word i = mark)

theorem accepts_samples : List.Forall₂ ParamType.Accepts params (samples params word) := by
  refine List.forall₂_iff_get.mpr ⟨by simp [samples], ?_⟩
  intro i hi _
  simpa [samples] using (params[i]).accepts_ofWord (word i)

include hword

theorem inSlot_samples :
    List.Forall₂ Arg.InSlot (samples params word) (sampleWords params word) := by
  refine List.forall₂_iff_get.mpr ⟨by simp [samples, sampleWords], ?_⟩
  intro i hi hi'
  have hlt : i < params.length := by simpa [samples] using hi
  simpa [samples, sampleWords] using (params[i]).ofWord_inSlot (hword i)

theorem inUnion_samples :
    List.Forall₂ Arg.InUnion (samples params word) (sampleWords params word) := by
  refine List.forall₂_iff_get.mpr ⟨by simp [samples, sampleWords], ?_⟩
  intro i hi hi'
  have hlt : i < params.length := by simpa [samples] using hi
  simpa [samples, sampleWords] using (params[i]).ofWord_inUnion (hword i)

end Samples

theorem sampleWords_getElem? {params : List ParamType} {word : Nat → UInt64} {i : Nat} {w : UInt64}
    (h : (sampleWords params word)[i]? = some w) :
    ∃ t, params[i]? = some t ∧ w = t.slotWord (word i) := by
  simp only [sampleWords, List.getElem?_mapIdx, Option.map_eq_some_iff] at h
  obtain ⟨t, ht, rfl⟩ := h
  exact ⟨t, ht, rfl⟩

theorem splitNameSig_method (d : Descriptor) : (splitNameSig (str "f" ++ d.text)).2 = d.text := by
  rw [splitNameSig_append (by decide) rfl]

section Distinguish

variable {S : Session} {slot : Nat} (hslot : slot ∈ variadicSlots) {off offV offA : UInt64}
  (hcap : S.Captures off slot) (hcapV : S.Captures offV (slot + 1))
  (hcapA : S.Captures offA (slot + 2)) {ix : Fin nargs}
  (hix : isCallMethod (slotName slot) = some ix) (d : Descriptor) {G V : Nat} (hG : G ≤ 8)
include hslot hix

include hcap hcapV hG in
variable (offA V) in
/-- The call of the samples in all three ways, and the words that the first
two records hold of the registers and of the stack. -/
theorem exists_sampled {word : Nat → UInt64} (hword : ∀ i, word i = 0 ∨ word i = mark)
    (dflt : UInt64) :
    ∃ e eV eA, CalledDirect S off ix 0 (samples d.params word) e ∧
      CalledVaList S offV ix G V 0 (samples d.params word) eV ∧
      CalledJvalues S offA ix 0 (samples d.params word) eA ∧ e.ncap.toNat = 4 - ix.val ∧
      (∀ i < 4 - ix.val, windowWord e.cap i =
        layOut (place (7 - ix.val) 8 (d.params.map ParamType.isFp)) (sampleWords d.params word)
          dflt (.gr i)) ∧
      eV.vgoff = grCursor G 0 ∧ (0 < G → eV.vgr ≠ 0) ∧
      ∀ k < ncapWords, windowWord eV.cap2 k =
        layOut (place G V (d.params.map ParamType.isFp)) (sampleWords d.params word) dflt
          (.stack k) := by
  obtain ⟨-, -, hA0, hV0, hA1, hV1, -⟩ := variadicSlots_spec slot hslot
  obtain ⟨hixV, -, hrange⟩ := variants_index hslot hix
  have hlen : (samples d.params word).length < 256 := by
    have hbound := d.bounded
    simp [samples]
    omega
  have hbehind : ix.val + 1 + 0 < nargs := by rcases hrange with rfl | rfl <;> decide
  have hslots := inSlot_samples d.params hword
  have hpassed := Scenario.passed_layOut (7 - ix.val) 8 hslots dflt
  have hpassedV := Scenario.passed_layOut G V hslots dflt
  rw [banks_eq (accepts_samples d.params)] at hpassed hpassedV
  generalize layOut (place (7 - ix.val) 8 (d.params.map ParamType.isFp))
    (sampleWords d.params word) dflt = contents at hpassed ⊢
  generalize layOut (place G V (d.params.map ParamType.isFp))
    (sampleWords d.params word) dflt = contentsV at hpassedV ⊢
  have hregs := Scenario.inRegisters_callCtx S off 0 (fun _ => none) hpassed
  have hpointer := Scenario.callParm_behind ix 0 (fun _ => 0x1000) 0 hbehind
  obtain ⟨hncap, hwords⟩ := (Scenario.entryOf_directEvt S off ix 0).registers hcap hix hrange
    (by simp [argKind, hA0, hV0]) hregs
  obtain ⟨hvgoff, hvgr, -, hcap2⟩ := (Scenario.entryOf_vaListEvt S offV ix 0).vaList hcapV hixV
    hrange (by simp [argKind, hA1, hV1]) hpointer hG (Scenario.holdsVaList G V hG hlen hpassedV)
  refine ⟨_, _, _, Scenario.calledDirect S off ix 0 hpassed,
    Scenario.calledVaList S offV ix 0 hbehind hlen hG hpassedV,
    Scenario.calledJvalues S offA ix 0 hbehind hlen (inUnion_samples d.params hword),
    hncap, hwords, hvgoff, ?_, ?_⟩
  · rw [hvgr]
    exact fun _ => by decide
  · intro k hk
    rw [hcap2]
    apply windowWord_captureWords hk
    apply Scenario.vaListMemory_stack
    unfold ncapWords at hk
    omega

include hcapA

/-- For a sampled parameter `decodeA` shows the sampled word. -/
theorem decodeA_sampled {word : Nat → UInt64} (hword : ∀ i, word i = 0 ∨ word i = mark) {eA : Evt}
    (h : CalledJvalues S offA ix 0 (samples d.params word) eA) (c : Caches)
    (mr : Option UserMemory) {i : Nat} {t : ParamType} (hi : i < ncapWords)
    (ht : d.params[i]? = some t) :
    (decodeA eA (d.params.map ParamType.desc) c mr)[i]? =
      some (fmtJV t.desc (t.slotWord (word i)) c mr) := by
  obtain ⟨-, -, -, -, -, -, hA2, -⟩ := variadicSlots_spec slot hslot
  obtain ⟨-, hixA, hrange⟩ := variants_index hslot hix
  have ha : (samples d.params word)[i]? = some (t.ofWord (word i)) := by simp [samples, ht]
  obtain ⟨w, hw, hshown⟩ := h.shown hcapA hixA hrange c mr (by simp [argKind, hA2]) hi ht ha
  rw [hshown, fmtJV_of_inUnion (t.accepts_ofWord (word i)) hw (t.ofWord_inUnion (hword i))]

include hcap hcapV hG

/-- A floating-point parameter among the captured registers is rendered from a
register that does not hold it. -/
theorem generalFirst_of_agree (h : VariantsAgree S slot off offV offA d G V) :
    GeneralFirst (4 - ix.val) d.params := by
  obtain ⟨-, -, hrange⟩ := variants_index hslot hix
  have hmark : ∀ i : Nat, (fun _ => mark) i = 0 ∨ (fun _ : Nat => mark) i = mark :=
    fun _ => Or.inr rfl
  obtain ⟨e, eV, eA, he, heV, heA, hncap, hregs, -⟩ :=
    exists_sampled hslot offA hcap hcapV hix d V hG hmark mark
  have hsig := splitNameSig_method d
  generalize str "f" ++ d.text = full at hsig
  obtain ⟨hl, -, hlA⟩ := variants_callArgs (c := onlyMethod full) hslot hix none rfl hsig he heV heA
  obtain ⟨l, lV, lA, hl', -, hlA', -, hagree, -⟩ := h ix _ (onlyMethod full) none 0 full e eV eA
    hix (accepts_samples d.params) rfl hsig he heV heA
  obtain rfl := Option.some.inj (hl.symm.trans hl')
  obtain rfl := Option.some.inj (hlA.symm.trans hlA')
  intro j hj t ht
  rw [Option.mem_def] at ht
  by_contra hfp
  have hfp : t.isFp = true := by simpa using hfp
  have hcaptured : j < ncapWords ∧ j < 2 := by
    have hix : 2 ≤ ix.val := by rcases hrange with rfl | rfl <;> decide
    unfold ncapWords
    omega
  -- every general register holds the mark
  have hregister : windowWord e.cap j = mark := by
    rw [hregs j hj]
    rcases layOut_cases mark (place (7 - ix.val) 8 (d.params.map ParamType.isFp))
      (sampleWords d.params (fun _ => mark)) (.gr j) with hdflt | ⟨i, hplace, hput⟩
    · exact hdflt
    · obtain ⟨t', ht', hw⟩ := sampleWords_getElem? hput
      have hgeneral := (general_of_gr _ _ hplace).1
      rw [List.getElem?_map, ht', Option.map_some, Option.some.injEq] at hgeneral
      rw [hw, ParamType.slotWord, hgeneral]
      rfl
  have hdirect : (decodeDirect e (d.params.map ParamType.desc) (onlyMethod full) none)[j]? =
      some (fmtJV t.desc mark (onlyMethod full) none) := by
    have hdesc : (d.params.map ParamType.desc)[j]? = some t.desc := by simp [ht]
    rw [decodeDirect_getElem? e _ _ _ hdesc, if_neg (by omega), hregister]
  have harray := decodeA_sampled hslot hcapA hix d hmark heA (onlyMethod full) none hcaptured.1 ht
  rw [ParamType.slotWord, hfp, if_pos rfl] at harray
  obtain ⟨hne, hmarked, hzero⟩ := t.fmtJV_mark full
  exact hne (hagree.2 j _ _ hdirect harray hmarked hzero)

/-- Behind a spilled floating-point parameter a general one is rendered from a
stack slot that does not hold it. -/
theorem spillInOrder_of_agree (h : VariantsAgree S slot off offV offA d G V) :
    SpillInOrder G V d.params := by
  intro i hi t ht hgeneral hgp
  rw [Option.mem_def] at ht
  by_contra hfp
  have hword : ∀ j, (fun j => if j = i then mark else 0) j = 0 ∨
      (fun j => if j = i then mark else 0) j = mark := by
    intro j
    dsimp only
    split
    · exact Or.inr rfl
    · exact Or.inl rfl
  obtain ⟨e, eV, eA, he, heV, heA, -, -, hvgoff, hvgr, hstack⟩ :=
    exists_sampled hslot offA hcap hcapV hix d V hG hword 0
  have hsig := splitNameSig_method d
  generalize str "f" ++ d.text = full at hsig
  obtain ⟨-, hlV, hlA⟩ :=
    variants_callArgs (c := onlyMethod full) hslot hix none rfl hsig he heV heA
  obtain ⟨l, lV, lA, -, hlV', hlA', -, -, hagree⟩ := h ix _ (onlyMethod full) none 0 full e eV eA
    hix (accepts_samples d.params) rfl hsig he heV heA
  obtain rfl := Option.some.inj (hlV.symm.trans hlV')
  obtain rfl := Option.some.inj (hlA.symm.trans hlA')
  have hbank : (d.params.map ParamType.isFp)[i]? = some false := by simp [ht, hgeneral]
  have hspot := place_general G V hbank
  have hle := before_le false (d.params.map ParamType.isFp) i
  have hshown := decodeVFrom_general eV (onlyMethod full) none d.params hG hvgr 0 ht hgeneral
    (by unfold ncapWords at hi; omega)
  have hstart : eV.vstk = stackCursor eV G 0 := by simp [stackCursor]
  rw [← hvgoff, ← hstart, Nat.zero_add] at hshown
  generalize before false (d.params.map ParamType.isFp) i = gp at *
  generalize before true (d.params.map ParamType.isFp) i = fp at *
  -- the slot that `decodeV` reads holds another argument or none
  have hslotWord : generalWord eV G gp = 0 := by
    rw [generalWord, if_neg (by omega), hstack _ (by omega)]
    rcases layOut_cases 0 (place G V (d.params.map ParamType.isFp))
      (sampleWords d.params (fun j => if j = i then mark else 0)) (.stack (gp - G)) with
      hdflt | ⟨k, hplace, hput⟩
    · exact hdflt
    · have hother : k ≠ i := by
        rintro rfl
        rw [hspot, spot, if_neg (by omega), Option.some.injEq, Place.stack.injEq] at hplace
        omega
      obtain ⟨t', -, hw⟩ := sampleWords_getElem? hput
      rw [hw, if_neg hother, ParamType.slotWord]
      split <;> rfl
  rw [hslotWord] at hshown
  have harray := decodeA_sampled hslot hcapA hix d hword heA (onlyMethod full) none hi ht
  rw [ParamType.slotWord, hgeneral, if_neg (by decide), if_pos rfl] at harray
  obtain ⟨hne, hmarked, hzero⟩ := t.fmtJV_mark full
  exact hne (hagree.2 i _ _ hshown harray hzero hmarked).symm

end Distinguish

/-- The three variants of a call function agree on every call of a method, for
a `va_list` with `G` general and `V` vector registers left, if and only if no
floating-point parameter is among those captured from registers and none is
spilled before a captured general one that is on the stack. -/
theorem variants_agree_iff (S : Session) {slot : Nat} (hslot : slot ∈ variadicSlots)
    {off offV offA : UInt64} (hcap : S.Captures off slot) (hcapV : S.Captures offV (slot + 1))
    (hcapA : S.Captures offA (slot + 2)) {ix : Fin nargs}
    (hix : isCallMethod (slotName slot) = some ix) (d : Descriptor) {G V : Nat} (hG : G ≤ 8) :
    VariantsAgree S slot off offV offA d G V ↔
      GeneralFirst (4 - ix.val) d.params ∧ SpillInOrder G V d.params := by
  constructor
  · intro h
    exact ⟨generalFirst_of_agree hslot hcap hcapV hcapA hix d hG h,
      spillInOrder_of_agree hslot hcap hcapV hcapA hix d hG h⟩
  · rintro ⟨hgeneral, hspill⟩
    exact variantsAgree_of_ordered hslot hcap hcapV hcapA hix hG hgeneral hspill

namespace Scenario

/-- `CallVoidMethod`, `CallVoidMethodV` and `CallVoidMethodA`. -/
def variantSession : Session := session (table [61, 62, 63])

theorem variantSession_captures : variantSession.Captures 0 61 ∧ variantSession.Captures 1 62 ∧
    variantSession.Captures 2 63 := by
  refine ⟨⟨?_, ?_, ?_⟩, ⟨?_, ?_, ?_⟩, ⟨?_, ?_, ?_⟩⟩ <;> decide +kernel

/-- The void method with these parameters of primitive types. -/
def voidMethod (params : List ParamType) (hprim : ∀ t ∈ params, t.WellFormed)
    (hlen : params.length ≤ 255) : Descriptor where
  params := params
  ret := str "V"
  wellFormed := hprim
  bounded := hlen

/-- The descriptor `(IID)V`. -/
def intsFirst : Descriptor :=
  voidMethod [.int, .int, .double] (by simp [ParamType.WellFormed]) (by decide)

end Scenario

open Scenario in
theorem variants_agree_ints : VariantsAgree variantSession 61 0 1 2 intsFirst 5 8 :=
  (variants_agree_iff variantSession (by decide) variantSession_captures.1
    variantSession_captures.2.1 variantSession_captures.2.2
    (show isCallMethod (slotName 61) = some 2 by decide) intsFirst (by decide)).mpr
    ⟨by decide, by decide⟩

namespace Scenario

/-- The descriptor `(DI)V`. -/
def doubleFirst : Descriptor :=
  voidMethod [.double, .int] (by simp [ParamType.WellFormed]) (by decide)

/-- The descriptor `(IIIIIDDDDDDDDDI)V`: the last double and the last int are
on the stack. -/
def doublesSpilled : Descriptor :=
  voidMethod (List.replicate 5 .int ++ List.replicate 9 .double ++ [.int])
    (by simp [ParamType.WellFormed]) (by decide)

/-- The bits of `1.5`. -/
def onePointFive : UInt64 := 0x3ff8000000000000

/-- The three records of a call whose arguments are in these words, with five
general and eight vector registers for them. -/
def records (args : List Arg) (words : List UInt64) : Evt × Evt × Evt :=
  let contents := layOut (place 5 8 (args.map Arg.isFp)) words 0
  (directEvt variantSession 0 2 0 contents, vaListEvt variantSession 1 2 0 5 contents,
    arrayEvt variantSession 2 2 0 words)

/-- The argument texts of the three records. -/
def recordTexts (d : Descriptor) (args : List Arg) (words : List UInt64) :
    Option (List Bytes) × Option (List Bytes) × Option (List Bytes) :=
  let full := str "f" ++ d.text
  let (e, eV, eA) := records args words
  (callArgs e (slotName 61) (onlyMethod full) none,
    callArgs eV (slotName 61 ++ str "V") (onlyMethod full) none,
    callArgs eA (slotName 61 ++ str "A") (onlyMethod full) none)

theorem not_variantsAgree {d : Descriptor} {args : List Arg} {words : List UInt64}
    (haccepts : List.Forall₂ ParamType.Accepts d.params args)
    (hslots : List.Forall₂ Arg.InSlot args words) (hunions : List.Forall₂ Arg.InUnion args words)
    {l lV lA : List Bytes} (htexts : recordTexts d args words = (some l, some lV, some lA))
    (hdiffer : ¬ (Agree l lV ∧ Agree l lA ∧ Agree lV lA)) :
    ¬ VariantsAgree variantSession 61 0 1 2 d 5 8 := by
  intro h
  have hlen : args.length < 256 := by
    have hbound := d.bounded
    have heq := haccepts.length_eq
    omega
  have hpassed := passed_layOut 5 8 hslots 0
  obtain ⟨l', lV', lA', hl, hlV, hlA, hagree⟩ := h 2 args (onlyMethod (str "f" ++ d.text)) none 0
    (str "f" ++ d.text) _ _ _ (by decide) haccepts rfl (splitNameSig_method d)
    (calledDirect variantSession 0 2 0 hpassed)
    (calledVaList variantSession 1 2 0 (by decide) hlen (by decide) hpassed)
    (calledJvalues variantSession 2 2 0 (by decide) hlen hunions)
  have htexts' : recordTexts d args words = (some l', some lV', some lA') := by
    rw [← hl, ← hlV, ← hlA]
    rfl
  rw [htexts] at htexts'
  obtain ⟨rfl, rfl, rfl⟩ : l = l' ∧ lV = lV' ∧ lA = lA' := by simpa using htexts'
  exact hdiffer hagree

end Scenario

open Scenario in
/-- The variadic function shows `1.5` and `7` as `3.5e-323` and `0`; the `V`
variant shows an int behind a spilled double as `0`. -/
theorem double_arguments_misread :
    recordTexts doubleFirst [.jdouble onePointFive, .jint 7] [onePointFive, 7] =
      (some [str "3.5e-323", str "0"], some [str "?", str "7"], some [str "1.5", str "7"]) ∧
    recordTexts doublesSpilled
        ([.jint 1, .jint 2, .jint 3, .jint 4, .jint 5] ++
          List.replicate 9 (.jdouble onePointFive) ++ [.jint 7])
        ([1, 2, 3, 4, 5] ++ List.replicate 9 onePointFive ++ [7]) =
      (some ([str "1", str "2"] ++ List.replicate 13 (str "?")),
        some ([str "1", str "2", str "3", str "4", str "5"] ++ List.replicate 9 (str "?") ++
          [str "0"]),
        some ([str "1", str "2", str "3", str "4", str "5"] ++ List.replicate 9 (str "1.5") ++
          [str "7"])) ∧
    ¬ VariantsAgree variantSession 61 0 1 2 doubleFirst 5 8 ∧
    ¬ VariantsAgree variantSession 61 0 1 2 doublesSpilled 5 8 := by
  have hfirst : recordTexts doubleFirst [.jdouble onePointFive, .jint 7] [onePointFive, 7] =
      (some [str "3.5e-323", str "0"], some [str "?", str "7"], some [str "1.5", str "7"]) := by
    decide +kernel
  have hspilled : recordTexts doublesSpilled
        ([.jint 1, .jint 2, .jint 3, .jint 4, .jint 5] ++
          List.replicate 9 (.jdouble onePointFive) ++ [.jint 7])
        ([1, 2, 3, 4, 5] ++ List.replicate 9 onePointFive ++ [7]) =
      (some ([str "1", str "2"] ++ List.replicate 13 (str "?")),
        some ([str "1", str "2", str "3", str "4", str "5"] ++ List.replicate 9 (str "?") ++
          [str "0"]),
        some ([str "1", str "2", str "3", str "4", str "5"] ++ List.replicate 9 (str "1.5") ++
          [str "7"])) := by
    decide +kernel
  refine ⟨hfirst, hspilled, not_variantsAgree ?_ ?_ ?_ hfirst ?_,
    not_variantsAgree ?_ ?_ ?_ hspilled ?_⟩
  · simp [doubleFirst, voidMethod, ParamType.Accepts]
  · simp [Arg.InSlot]
  · simp [Arg.InUnion]
  · rintro ⟨-, hdirect, -⟩
    exact absurd (hdirect.2 0 _ _ rfl rfl (by decide) (by decide)) (by decide)
  · simp [doublesSpilled, voidMethod, ParamType.Accepts, List.replicate]
  · simp [Arg.InSlot, List.replicate]
  · simp [Arg.InUnion, List.replicate]
  · rintro ⟨-, -, hlist⟩
    exact absurd (hlist.2 14 _ _ rfl rfl (by decide) (by decide)) (by decide)

end JniProbe
