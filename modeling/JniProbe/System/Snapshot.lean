import JniProbe.Loader.ArgWords
import JniProbe.Loader.Reads
import JniProbe.System.Pairing
import JniProbe.System.Variants

/-!
The entry program writes every captured word that the loader will read. The
kind that the loader records for an offset and the decoder that it later picks
by the function's name agree, so the decoded arguments depend on the registers
and the memory of the call alone, not on what the record's memory held before.
-/

namespace JniProbe

open GoText

/-- After `runProbe` has filled the maps, every `Put` shows. -/
structure Session.PutsSucceed (S : Session) : Prop where
  argkind : ∀ p ∈ S.argPuts, (S.maps.argkind.lookup p.1).isSome = true
  argidx : ∀ p ∈ S.argPuts, (S.maps.argidx.lookup p.1).isSome = true
  hasret : ∀ off ∈ S.retOffsets, S.hasret off = true

/-- The maps have room for so many offsets. -/
theorem Session.putsSucceed_of_length (S : Session) (hargs : S.argPuts.length ≤ 2048)
    (hoffsets : S.retOffsets.length ≤ 8192) : S.PutsSucceed := by
  have hfilled (column : UInt8 × UInt8 → UInt8) (p : UInt64 × UInt8 × UInt8) (hp : p ∈ S.argPuts) :
      ((BoundedMap.fill (S.argPuts.map (fun p => (p.1, column p.2))) :
        BoundedMap UInt64 UInt8 2048).lookup p.1).isSome = true := by
    have hfst : (S.argPuts.map (fun p => (p.1, column p.2))).map Prod.fst =
        S.argPuts.map Prod.fst := by
      simp [Function.comp_def]
    rw [BoundedMap.fill_lookup _ (by rw [hfst]; exact S.argPuts_nodup),
      List.take_of_length_le (by simpa using hargs), Option.isSome_map, List.find?_isSome]
    exact ⟨_, List.mem_map_of_mem hp, by simp⟩
  refine ⟨hfilled Prod.fst, hfilled Prod.snd, ?_⟩
  intro off hoff
  rw [S.hasret_iff, List.take_of_length_le hoffsets]
  exact hoff

theorem Session.PutsSucceed.captures {S : Session} (h : S.PutsSucceed) {off : UInt64} {slot : Nat}
    (hslot : S.slotAt off = some slot) (hcall : (isCallMethod (slotName slot)).isSome = true) :
    S.Captures off slot := by
  obtain ⟨ix, hix⟩ := Option.isSome_iff_exists.mp hcall
  have hput : (off, argKind (slotName slot), (ix.val + 1).toUInt8) ∈ S.argPuts :=
    List.mem_filterMap.mpr ⟨⟨off, slot⟩, AList.mem_lookup_iff.mp hslot, by
      dsimp only
      rw [hix]
      rfl⟩
  exact ⟨hslot, h.argkind _ hput, h.argidx _ hput⟩

theorem isCallMethod_range {nm : Bytes} {ix : Fin nargs} (h : isCallMethod nm = some ix) :
    ix = 2 ∨ ix = 3 := by
  unfold isCallMethod at h
  split at h
  · exact Or.inl (Option.some.inj h).symm
  · split at h
    · split at h
      · exact Or.inr (Option.some.inj h).symm
      · exact Or.inl (Option.some.inj h).symm
    · cases h

/-! ### The decoders -/

section Decoders

variable {e e' : Evt} (c : Caches) (mr : Option UserMemory)

theorem decodeVFrom_congr (hvgr : e.vgr = e'.vgr) (hvstk : e.vstk = e'.vstk)
    (hcap : e.cap = e'.cap) (hcap2 : e.cap2 = e'.cap2) (params : List Bytes) (grOffs : Int64)
    (stack : UInt64) :
    decodeVFrom e c mr params grOffs stack = decodeVFrom e' c mr params grOffs stack := by
  induction params generalizing grOffs stack with
  | nil => rfl
  | cons t rest ih => simp only [decodeVFrom, hvgr, hvstk, hcap, hcap2, ih]

/-- `decodeDirect` reads the words below `ncap`, the first two at most. -/
theorem decodeDirect_congr (hncap : e.ncap = e'.ncap)
    (hwords : ∀ i < e.ncap.toNat, i < 2 → windowWord e.cap i = windowWord e'.cap i)
    (params : List Bytes) : decodeDirect e params c mr = decodeDirect e' params c mr := by
  unfold decodeDirect
  apply List.ext_getElem?
  intro i
  rw [List.getElem?_mapIdx, List.getElem?_mapIdx]
  congr 1
  funext t
  rw [← hncap]
  split
  · rfl
  · rename_i h
    rw [hwords i (by omega) (by omega)]

end Decoders

/-! ### What is captured is all that is decoded -/

section Captured

variable {S S' : Session} {slot : Nat} {ix : Fin nargs} {ctx ctx' : ProbeCtx}

/-- At an offset whose arguments are captured, the words that the decoder of
the function reads depend on the registers and the memory of the call. -/
theorem decodeArgs_captured (hix : isCallMethod (slotName slot) = some ix)
    (hcap : S.Captures (ctx.ip - S.base) slot) (hcap' : S'.Captures (ctx'.ip - S'.base) slot)
    (hparm : ctx.parm = ctx'.parm) (hmem : ctx.mem = ctx'.mem) (d d' : UInt32) (raw raw' : Evt)
    (params : List Bytes) (c : Caches) (mr : Option UserMemory) :
    decodeArgs (entryEvt S.maps d ctx raw) (slotName slot) params c mr =
      decodeArgs (entryEvt S'.maps d' ctx' raw') (slotName slot) params c mr := by
  obtain ⟨hkind, hindex⟩ := hcap.lookups hix
  obtain ⟨hkind', hindex'⟩ := hcap'.lookups hix
  have hrange := isCallMethod_range hix
  have hlt := index_lt hrange
  unfold argKind at hkind hkind'
  unfold decodeArgs
  split
  · rename_i hA
    rw [if_pos hA] at hkind hkind'
    have hwords := entryEvt_jvalues (m := S.maps) d ctx raw hindex hlt hkind
    have hwords' := entryEvt_jvalues (m := S'.maps) d' ctx' raw' hindex' hlt hkind'
    simp only [decodeA, hwords, hwords', hparm, hmem]
  · rename_i hA
    rw [if_neg hA] at hkind hkind'
    split
    · rename_i hV
      rw [if_pos hV] at hkind hkind'
      obtain ⟨hvstk, hvgr, hvgoff, hgr, hstack⟩ :=
        entryEvt_vaList (m := S.maps) d ctx raw hindex hlt hkind rfl
      obtain ⟨hvstk', hvgr', hvgoff', hgr', hstack'⟩ :=
        entryEvt_vaList (m := S'.maps) d' ctx' raw' hindex' hlt hkind' rfl
      simp only [hparm, hmem] at hvstk hvgr hvgoff hgr hstack
      unfold decodeV
      rw [hvgoff, hvgoff', hvstk, hvstk']
      exact decodeVFrom_congr c mr (hvgr.trans hvgr'.symm) (hvstk.trans hvstk'.symm)
        (hgr.trans hgr'.symm) (hstack.trans hstack'.symm) params _ _
    · rename_i hV
      rw [if_neg hV] at hkind hkind'
      obtain ⟨hncap, hfirst, hnext⟩ :=
        entryEvt_registers (m := S.maps) d ctx raw hindex hlt hkind
      obtain ⟨hncap', hfirst', hnext'⟩ :=
        entryEvt_registers (m := S'.maps) d' ctx' raw' hindex' hlt hkind'
      simp only [hparm] at hfirst hnext
      apply decodeDirect_congr c mr (hncap.trans hncap'.symm)
      intro i hi htwo
      rw [windowWord_of_lt _ (show i < ncapWords by unfold ncapWords; omega),
        windowWord_of_lt _ (show i < ncapWords by unfold ncapWords; omega)]
      obtain rfl | rfl : i = 0 ∨ i = 1 := by omega
      · exact hfirst.trans hfirst'.symm
      · have hroom : (ix.val + 1).toUInt8.toNat + 1 < nargs := by
          rw [hncap] at hi
          rcases hrange with rfl | rfl
          · decide
          · exact absurd hi (by decide)
        exact (hnext hroom).trans (hnext' hroom).symm

/-- Two sessions with the same functions record the same of one call, but for
what neither of them reads, if they agree about its depth. -/
theorem entryEvt_readsAlike (hputs : S.PutsSucceed) (hputs' : S'.PutsSucceed)
    (hslot : S.slotAt (ctx.ip - S.base) = some slot)
    (hslot' : S'.slotAt (ctx'.ip - S'.base) = some slot) (htid : ctx.tid = ctx'.tid)
    (hip : ctx.ip = ctx'.ip) (hret : ctx.ret = ctx'.ret) (hparm : ctx.parm = ctx'.parm)
    (hmem : ctx.mem = ctx'.mem) {d d' : UInt32} {raw raw' : Evt}
    (hdepth : (entryEvt S.maps d ctx raw).depth = (entryEvt S'.maps d' ctx' raw').depth) :
    (entryEvt S.maps d ctx raw).ReadsAlike (slotName slot) (entryEvt S'.maps d' ctx' raw') where
  tid := by rw [entryEvt_tid, entryEvt_tid, htid]
  kind := by rw [entryEvt_kind, entryEvt_kind]
  ip := by rw [entryEvt_ip, entryEvt_ip, hip]
  depth := hdepth
  caller := by rw [entryEvt_caller, entryEvt_caller, hret]
  a := by rw [entryEvt_a, entryEvt_a, hparm]
  args hcall params c mr := by
    obtain ⟨ix, hix⟩ := Option.isSome_iff_exists.mp hcall
    exact decodeArgs_captured hix (hputs.captures hslot hcall) (hputs'.captures hslot' hcall)
      hparm hmem d d' raw raw' params c mr

end Captured

end JniProbe
