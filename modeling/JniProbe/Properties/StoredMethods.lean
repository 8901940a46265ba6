import JniProbe.Loader.CallTexts
import JniProbe.Loader.ParamScan
import JniProbe.Loader.Returns
import JniProbe.System.Scenario

/-!
What is stored under a method id. The name entry and the class entry of an id
come from one return unless a rejected lookup overwrites the class alone, and
the text of a method is stored whole unless its descriptor is longer than the
buffer it is read into.
-/

namespace JniProbe

open GoText

/-! ### Name and class of an id -/

/-- An id lookup whose name or signature is unreadable or rejected. -/
def Return.rejected (r : Return) : Bool :=
  r.mr.isSome && r.rc ≠ 0 && returnCase (slotName r.fr.slot) = .getId &&
    !(validName (cstr r.mr r.fr.a2) && validSig (cstr r.mr r.fr.a3))

/-- For every id that has a name, name and class come from the same return. -/
def Together (rs : List Return) : Prop :=
  ∀ m, ((learned rs).idName m).isSome = true → lastNamed rs m = lastClassed rs m

/-- The name and the class that `describeCall` uses for such an id are those of
one lookup. -/
theorem Together.entries {rs : List Return} (h : Together rs) {m : UInt64} {full : Bytes}
    (hfull : (learned rs).idName m = some full) :
    ∃ r ∈ rs, r.rc = m ∧ full = cstr r.mr r.fr.a2 ++ cstr r.mr r.fr.a3 ∧
      (learned rs).idClass m = some r.fr.a1 := by
  have hknown : ((learned rs).idName m).isSome = true := by rw [hfull]; rfl
  have hnamed := hknown
  rw [← lastNamed_isSome] at hnamed
  obtain ⟨n, hn⟩ := Option.isSome_iff_exists.mp hnamed
  have hclassed := h m hknown
  rw [hn] at hclassed
  obtain ⟨r, hr, hrc, -, htext⟩ := lastNamed_eq_some hn
  obtain ⟨r', hr', -, hclass⟩ := lastClassed_eq_some hclassed.symm
  obtain rfl : r = r' := Option.some.inj (hr.symm.trans hr')
  rw [hfull] at htext
  exact ⟨r, List.mem_of_getElem? hr, hrc, Option.some.inj htext, hclass⟩

theorem classRefWrite_of_rejected {r : Return} (h : r.rejected = true) :
    r.classRefWrite = some (r.rc, r.fr.a1) ∧ r.nameWrite = none := by
  simp only [Return.rejected, Bool.and_eq_true, decide_eq_true_eq, Bool.not_eq_true'] at h
  obtain ⟨⟨⟨hmr, hrc⟩, hcase⟩, hinvalid⟩ := h
  constructor
  · simp [Return.classRefWrite, ownerWrite, hmr, hrc, hcase]
  · simp [Return.nameWrite, namesId, hmr, hrc, hcase, hinvalid]

/-- Any other return writes both entries of an id or neither. -/
theorem writes_of_not_rejected {r : Return} (h : r.rejected = false) (n : Nat) :
    r.nameWrite.map (fun w => (w.1, n)) = r.classRefWrite.map (fun w => (w.1, n)) := by
  unfold Return.rejected at h
  unfold Return.nameWrite Return.classRefWrite namesId ownerWrite
  cases hlookup : r.mr.isSome && decide (r.rc ≠ 0) &&
      decide (returnCase (slotName r.fr.slot) = .getId) with
  | false => rfl
  | true =>
      rw [hlookup, Bool.true_and, Bool.not_eq_false', Bool.and_eq_true] at h
      simp only [h.1, h.2, Bool.and_self, if_true, Option.map_some]

/-- A rejected lookup separates the entries of an id that has a name; nothing
else separates any. -/
theorem together_concat {rs : List Return} (h : Together rs) (r : Return) :
    Together (rs ++ [r]) ↔ (r.rejected = true → (learned rs).idName r.rc = none) := by
  have hnamed : lastNamed (rs ++ [r]) =
      LatestWrite.put (lastNamed rs) (r.nameWrite.map (fun w => (w.1, rs.length))) :=
    LatestWrite.latestAt_concat Return.nameWrite rs r
  have hclassed : lastClassed (rs ++ [r]) =
      LatestWrite.put (lastClassed rs) (r.classRefWrite.map (fun w => (w.1, rs.length))) :=
    LatestWrite.latestAt_concat Return.classRefWrite rs r
  cases hrejected : r.rejected with
  | true =>
      obtain ⟨hclass, hname⟩ := classRefWrite_of_rejected hrejected
      rw [hname, Option.map_none, LatestWrite.put_none] at hnamed
      rw [hclass, Option.map_some, LatestWrite.put_some] at hclassed
      constructor
      · intro hafter _
        rw [← Option.not_isSome_iff_eq_none, ← lastNamed_isSome]
        intro hknown
        have hsame := hafter r.rc (by rw [← lastNamed_isSome, hnamed]; exact hknown)
        rw [hnamed, hclassed, Function.update_self] at hsame
        exact absurd (LatestWrite.latestAt_lt hsame) (Nat.lt_irrefl _)
      · intro hnone m hknown
        rw [← lastNamed_isSome, hnamed] at hknown
        have hne : m ≠ r.rc := by
          rintro rfl
          rw [lastNamed_isSome, hnone rfl] at hknown
          cases hknown
        rw [hnamed, hclassed, Function.update_of_ne hne]
        exact h m (by rw [← lastNamed_isSome]; exact hknown)
  | false =>
      refine iff_of_true ?_ (fun hfalse => by cases hfalse)
      intro m hknown
      rw [← lastNamed_isSome] at hknown
      rw [hclassed, ← writes_of_not_rejected hrejected rs.length]
      rw [hnamed] at hknown ⊢
      cases hwrite : r.nameWrite with
      | none =>
          rw [hwrite] at hknown
          exact h m (by rw [← lastNamed_isSome]; exact hknown)
      | some w =>
          rw [Option.map_some, LatestWrite.put_some, LatestWrite.put_some]
          by_cases hm : m = w.1
          · subst hm
            rw [Function.update_self, Function.update_self]
          · rw [hwrite, Option.map_some, LatestWrite.put_some, Function.update_of_ne hm] at hknown
            rw [Function.update_of_ne hm, Function.update_of_ne hm]
            exact h m (by rw [← lastNamed_isSome]; exact hknown)

/-- Name and class stay together through a sequence of processed returns exactly
if every rejected lookup in it returns an id that has no name yet. -/
theorem ids_together_iff (rs : List Return) :
    (∀ n ≤ rs.length, Together (rs.take n)) ↔
      ∀ n r, rs[n]? = some r → r.rejected = true → (learned (rs.take n)).idName r.rc = none := by
  constructor
  · intro h n r hr
    obtain ⟨hlt, -⟩ := List.getElem?_eq_some_iff.mp hr
    have hafter := h (n + 1) hlt
    rw [List.take_add_one, hr, Option.toList_some] at hafter
    exact (together_concat (h n hlt.le) r).mp hafter
  · intro h n hn
    induction n with
    | zero =>
        intro m hknown
        cases hknown
    | succ n ih =>
        have hr : rs[n]? = some rs[n] := List.getElem?_eq_getElem hn
        rw [List.take_add_one, hr, Option.toList_some]
        exact (together_concat (ih (Nat.le_of_succ_le hn)) _).mpr (h n _ hr)

namespace Scenario

/-- A return of `GetMethodID` for the class reference `cls`. -/
def idReturn (mr : UserMemory) (cls id : UInt64) : Return :=
  ⟨some mr, ⟨33, 0, [], [], cls, 0x1000, 0x2000⟩, id⟩

/-- The name `f` at `0x1000` and the signature `()V` at `0x2000`. -/
def idMemory : UserMemory := textMemory [(0x1000, str "f"), (0x2000, str "()V")]

/-- The id `0x5000` is looked up through one class, and through another while
its strings cannot be read. -/
def halfRead : List Return :=
  [idReturn idMemory 0x3000 0x5000, idReturn (fun _ => none) 0x4000 0x5000]

end Scenario

open Scenario in
/-- The second lookup leaves the name of the first with a class of its own. -/
theorem rejected_lookup_separates :
    ¬ Together halfRead ∧ (learned halfRead).idName 0x5000 = some (str "f()V") ∧
      (learned (halfRead.take 1)).idClass 0x5000 = some 0x3000 ∧
      (learned halfRead).idClass 0x5000 = some 0x4000 := by
  have hname : (learned halfRead).idName 0x5000 = some (str "f()V") := by decide +kernel
  refine ⟨?_, hname, by decide +kernel, by decide +kernel⟩
  intro h
  obtain ⟨r, hr, -, htext, hclass⟩ := h.entries hname
  have hlast : (learned halfRead).idClass 0x5000 = some 0x4000 := by decide +kernel
  rw [hlast] at hclass
  rw [halfRead, List.mem_pair] at hr
  rcases hr with rfl | rfl
  · exact absurd hclass (by decide)
  · exact absurd htext (by decide)

/-! ### The text of a method -/

/-- The strings passed to a method lookup. -/
structure MethodStrings where
  name : Bytes
  params : List ParamType
  ret : Bytes
  wellFormed : ∀ t ∈ params, t.WellFormed

def MethodStrings.text (s : MethodStrings) : Bytes := descriptorText s.params s.ret

/-- The strings passed to the method lookups, by position, are where the frames
say when the returns are processed. -/
def StringsInPlace (rs : List Return) (passed : Nat → MethodStrings) : Prop :=
  ∀ (n : Nat) (r : Return), rs[n]? = some r → isMethodLookup (slotName r.fr.slot) = true →
    ∃ mem, r.mr = some mem ∧ mem.HoldsString r.fr.a2 (passed n).name ∧
      mem.HoldsString r.fr.a3 (passed n).text

/-- A method id holds the name and the whole descriptor of the lookup that named
it last, and a call through it is rendered with one argument text for each
declared parameter, in order, by the decoder of its variant. -/
def ArgumentsKept (rs : List Return) (passed : Nat → MethodStrings) : Prop :=
  ∀ n ≤ rs.length, ∀ m i r, lastNamed (rs.take n) m = some i → rs[i]? = some r →
    isMethodLookup (slotName r.fr.slot) = true →
    (learned (rs.take n)).idName m = some ((passed i).name ++ (passed i).text) ∧
    ∀ e nm ix mr, isCallMethod nm = some ix → e.a.get ix = m →
      ∃ args, describeCall e nm (learned (rs.take n)) mr =
          (callText (describeClass e m (learned (rs.take n)) mr) (passed i).name args, true) ∧
        args = decodeArgs e nm ((passed i).params.map ParamType.desc) (learned (rs.take n)) mr ∧
        args.length = (passed i).params.length

/-- The return of a method lookup that stores its strings. -/
structure StoresMethod (rs : List Return) (passed : Nat → MethodStrings) (n : Nat) (r : Return) :
    Prop where
  at_n : rs[n]? = some r
  lookup : isMethodLookup (slotName r.fr.slot) = true
  id : r.rc ≠ 0
  name : validName (passed n).name = true

section Stored

variable {rs : List Return} {passed : Nat → MethodStrings}

theorem validSig_take_text (s : MethodStrings) : validSig (s.text.take 256) = true := by
  have hlen : (s.text.take 256).length ≤ 256 := List.length_take_le 256 s.text
  have hhead : (s.text.take 256).head? = some 40 := rfl
  have hne : (s.text.take 256).length ≠ 0 := Nat.succ_ne_zero _
  simp only [validSig, hhead, hne, ne_eq, not_false_eq_true, decide_true, Bool.true_and,
    Bool.and_eq_true, decide_eq_true_eq]
  exact ⟨by omega, by decide⟩

/-- What the return of a method lookup stores: its strings, the descriptor up to
256 bytes, if the name is valid. -/
theorem namesId_method (hplace : StringsInPlace rs passed) {n : Nat} {r : Return}
    (hr : rs[n]? = some r) (hlookup : isMethodLookup (slotName r.fr.slot) = true) :
    (namesId r.mr r.fr r.rc = true ↔ r.rc ≠ 0 ∧ validName (passed n).name = true) ∧
      (namesId r.mr r.fr r.rc = true → cstr r.mr r.fr.a2 ++ cstr r.mr r.fr.a3 =
        (passed n).name ++ (passed n).text.take 256) := by
  obtain ⟨mem, hmr, hname, htext⟩ := hplace n r hr hlookup
  have hcase : returnCase (slotName r.fr.slot) = .getId := (returnCase_getId _).mpr (Or.inl hlookup)
  have hsig : cstr r.mr r.fr.a3 = (passed n).text.take 256 := by
    rw [hmr]
    exact cstr_eq_take htext
  have hvalid : validName (cstr r.mr r.fr.a2) = true ↔ validName (passed n).name = true := by
    rw [hmr]
    constructor
    · intro h
      rwa [cstr_of_validName hname h] at h
    · intro h
      have hlen := length_of_validName h
      rwa [cstr_of_holdsString hname (by omega)]
  have hreader : r.mr.isSome = true := by rw [hmr]; rfl
  constructor
  · simp only [namesId, hreader, hcase, hsig, validSig_take_text, decide_true, Bool.true_and,
      Bool.and_true, Bool.and_eq_true, decide_eq_true_eq, hvalid]
  · intro h
    simp only [namesId, Bool.and_eq_true] at h
    have hwhole : cstr r.mr r.fr.a2 = (passed n).name := by
      have hv := h.1.2
      rw [hmr] at hv ⊢
      exact cstr_of_validName hname hv
    rw [hwhole, hsig]

/-- After a method lookup that stores, its id was named by it. -/
theorem StoresMethod.lastNamed (hplace : StringsInPlace rs passed) {n : Nat} {r : Return}
    (h : StoresMethod rs passed n r) : lastNamed (rs.take (n + 1)) r.rc = some n := by
  obtain ⟨hnames, -⟩ := namesId_method hplace h.at_n h.lookup
  have hwrite : r.nameWrite = some (r.rc, cstr r.mr r.fr.a2 ++ cstr r.mr r.fr.a3) := by
    rw [Return.nameWrite, if_pos (hnames.mpr ⟨h.id, h.name⟩)]
  obtain ⟨hlt, -⟩ := List.getElem?_eq_some_iff.mp h.at_n
  have hconcat : JniProbe.lastNamed (rs.take n ++ [r]) = _ :=
    LatestWrite.latestAt_concat Return.nameWrite (rs.take n) r
  rw [List.take_add_one, h.at_n, Option.toList_some, hconcat, hwrite, Option.map_some,
    LatestWrite.put_some, Function.update_self, List.length_take_of_le hlt.le]

/-- The text under an id that a method lookup named last. -/
theorem idName_of_lastNamed (hplace : StringsInPlace rs passed) {n : Nat} {m : UInt64} {i : Nat}
    {r : Return} (hlast : lastNamed (rs.take n) m = some i) (hr : rs[i]? = some r)
    (hlookup : isMethodLookup (slotName r.fr.slot) = true) :
    StoresMethod rs passed i r ∧ (learned (rs.take n)).idName m =
      some ((passed i).name ++ (passed i).text.take 256) := by
  obtain ⟨r', hr', -, hnames, htext⟩ := lastNamed_eq_some hlast
  have hlt : i < n := by
    have hbound := LatestWrite.latestAt_lt hlast
    rw [List.length_take] at hbound
    omega
  rw [List.getElem?_take_of_lt hlt] at hr'
  obtain rfl : r = r' := Option.some.inj (hr.symm.trans hr')
  obtain ⟨hiff, hstored⟩ := namesId_method hplace hr hlookup
  refine ⟨⟨hr, hlookup, (hiff.mp hnames).1, (hiff.mp hnames).2⟩, ?_⟩
  rw [htext, hstored hnames]

/-- A stored descriptor of more than 256 bytes is cut. -/
theorem ArgumentsKept.length_le (h : ArgumentsKept rs passed) (hplace : StringsInPlace rs passed)
    {n : Nat} {r : Return} (hstores : StoresMethod rs passed n r) :
    (passed n).text.length ≤ 256 := by
  obtain ⟨hlt, -⟩ := List.getElem?_eq_some_iff.mp hstores.at_n
  have hlast := hstores.lastNamed hplace
  have hwhole := (h (n + 1) hlt r.rc n r hlast hstores.at_n hstores.lookup).1
  rw [(idName_of_lastNamed hplace hlast hstores.at_n hstores.lookup).2, Option.some.injEq,
    List.append_cancel_left_eq, List.take_eq_self_iff] at hwhole
  exact hwhole

/-- A call of which no argument is captured, through the id `m`. -/
def blindCall (m : UInt64) : Evt := { Scenario.blank with a := Vector.replicate nargs m }

theorem describe_blindCall {m : UInt64} {c : Caches} {full : Bytes}
    (hfull : c.idName m = some full) :
    ∃ args, describeCall (blindCall m) (str "NewObject") c none =
        (callText (describeClass (blindCall m) m c none) (splitNameSig full).1 args, true) ∧
      ∀ a ∈ args, a = str "?" := by
  have hix : isCallMethod (str "NewObject") = some 2 := by decide
  have hmid : (blindCall m).a.get 2 = m := rfl
  have hstored : c.idName ((blindCall m).a.get 2) = some full := by rw [hmid, hfull]
  have htext := @describeCall_callText (blindCall m) _ _ c none full hix hstored
  rw [hmid] at htext
  refine ⟨_, htext, ?_⟩
  have hA : hasSuffix (str "NewObject") (str "A") = false := by decide
  have hV : hasSuffix (str "NewObject") (str "V") = false := by decide
  intro a ha
  rw [decodeArgs, hA, hV, if_neg Bool.false_ne_true, if_neg Bool.false_ne_true, decodeDirect,
    List.mem_mapIdx] at ha
  obtain ⟨i, hi, rfl⟩ := ha
  exact if_pos (Or.inl (Nat.zero_le i))

/-- A name with a parenthesis is cut there. -/
theorem ArgumentsKept.plain (h : ArgumentsKept rs passed) (hplace : StringsInPlace rs passed)
    {n : Nat} {r : Return} (hstores : StoresMethod rs passed n r) : 40 ∉ (passed n).name := by
  obtain ⟨hlt, -⟩ := List.getElem?_eq_some_iff.mp hstores.at_n
  obtain ⟨hname, hcalls⟩ :=
    h (n + 1) hlt r.rc n r (hstores.lastNamed hplace) hstores.at_n hstores.lookup
  obtain ⟨args, hshown, -⟩ := hcalls (blindCall r.rc) (str "NewObject") 2 none (by decide) rfl
  obtain ⟨args', hactual, hblind⟩ := describe_blindCall hname
  have htexts := congrArg (fun t => t.1.count 40) (hactual.symm.trans hshown)
  have hblank : (join args' (str ", ")).count 40 = 0 := by
    rw [List.count_eq_zero]
    intro hmem
    rcases mem_join hmem with ⟨a, ha, hopen⟩ | hsep
    · rw [hblind a ha] at hopen
      exact absurd hopen (by decide)
    · exact absurd hsep (by decide)
  have hcut : (splitNameSig ((passed n).name ++ (passed n).text)).1.count 40 = 0 :=
    List.count_eq_zero.mpr (splitNameSig_name _)
  dsimp only at htexts
  rw [count_callText, count_callText, hblank, hcut] at htexts
  exact List.count_eq_zero.mp (by omega)

/-- The arguments of every method are kept exactly if each descriptor that is
stored fits the buffer and belongs to a name without a parenthesis. -/
theorem arguments_kept_iff (hplace : StringsInPlace rs passed) :
    ArgumentsKept rs passed ↔ ∀ n r, StoresMethod rs passed n r →
      (passed n).text.length ≤ 256 ∧ 40 ∉ (passed n).name := by
  constructor
  · intro h n r hstores
    exact ⟨h.length_le hplace hstores, h.plain hplace hstores⟩
  · intro hfits n _ m i r hlast hr hlookup
    obtain ⟨hstores, hname⟩ := idName_of_lastNamed hplace hlast hr hlookup
    obtain ⟨hlen, hplain⟩ := hfits i r hstores
    rw [List.take_of_length_le hlen] at hname
    refine ⟨hname, ?_⟩
    intro e nm ix mr hix hmid
    have hsplit : splitNameSig ((passed i).name ++ (passed i).text) =
        ((passed i).name, (passed i).text) := splitNameSig_append hplain rfl
    have hparams : parseParams (passed i).text = (passed i).params.map ParamType.desc :=
      parseParams_descriptorText (passed i).wellFormed (passed i).ret
    refine ⟨_, ?_, rfl, ?_⟩
    · rw [← hmid] at hname ⊢
      rw [describeCall_callText hix hname, hsplit, hparams]
    · rw [length_decodeArgs, List.length_map]

end Stored

namespace Scenario

/-- `f(L…;I)V` with a class name of this many bytes. -/
def longMethod (n : Nat) : MethodStrings where
  name := str "f"
  params := [.object (List.replicate n 97), .int]
  ret := str "V"
  wellFormed t ht := by
    rw [List.mem_pair] at ht
    rcases ht with rfl | rfl
    · intro hmem
      exact absurd (List.eq_of_mem_replicate hmem) (by decide)
    · trivial

def longMemory (n : Nat) : UserMemory :=
  textMemory [(0x1000, str "f"), (0x2000, (longMethod n).text)]

theorem stringsInPlace_long (n : Nat)
    (hname : (longMemory n).HoldsString 0x1000 (str "f"))
    (htext : (longMemory n).HoldsString 0x2000 (longMethod n).text) :
    StringsInPlace [idReturn (longMemory n) 0x3000 0x5000] (fun _ => longMethod n) := by
  intro i r hr _
  obtain rfl : r = idReturn (longMemory n) 0x3000 0x5000 := by
    simpa using List.mem_of_getElem? hr
  exact ⟨longMemory n, rfl, hname, htext⟩

theorem longMemory_name (n : Nat) : (longMemory n).HoldsString 0x1000 (str "f") where
  nonnull := by decide
  user := by decide
  bytes := rfl
  nonzero := by decide

end Scenario

open Scenario in
/-- A descriptor of 261 bytes is stored without the end of its first parameter,
and a call of the method shows no argument at all. -/
theorem long_descriptor_cut :
    StringsInPlace [idReturn (longMemory 255) 0x3000 0x5000] (fun _ => longMethod 255) ∧
      (describeCall (blindCall 0x5000) (str "NewObject")
        (learned [idReturn (longMemory 255) 0x3000 0x5000]) none).1 = str "0x3000.f()" ∧
      ¬ ArgumentsKept [idReturn (longMemory 255) 0x3000 0x5000] (fun _ => longMethod 255) := by
  have htext : (longMemory 255).HoldsString 0x2000 (longMethod 255).text :=
    ⟨by decide, by decide, by decide +kernel, by decide +kernel⟩
  have hplace := stringsInPlace_long 255 (longMemory_name 255) htext
  refine ⟨hplace, by decide +kernel, ?_⟩
  intro h
  have hstores : StoresMethod [idReturn (longMemory 255) 0x3000 0x5000] (fun _ => longMethod 255) 0
      (idReturn (longMemory 255) 0x3000 0x5000) := ⟨rfl, by decide, by decide, by decide⟩
  have hlen := h.length_le hplace hstores
  exact absurd hlen (by decide +kernel)

open Scenario in
/-- A descriptor of 15 bytes. -/
theorem arguments_kept_short :
    ArgumentsKept [idReturn (longMemory 9) 0x3000 0x5000] (fun _ => longMethod 9) := by
  have htext : (longMemory 9).HoldsString 0x2000 (longMethod 9).text :=
    ⟨by decide, by decide, by decide +kernel, by decide +kernel⟩
  apply (arguments_kept_iff (stringsInPlace_long 9 (longMemory_name 9) htext)).mpr
  intro n r _
  exact ⟨by decide +kernel, by decide⟩

end JniProbe
