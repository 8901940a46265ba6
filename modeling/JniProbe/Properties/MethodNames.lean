import JniProbe.Loader.Learning
import JniProbe.Properties.EntryReturn

/-!
Method names over whole runs. The name and signature that `describeCall` uses
for a method id are the strings passed to the latest id lookup that returned
this id, and the id is known exactly when there was such a lookup.
-/

namespace JniProbe

open GoText

/-! ### Lookups and the strings passed to them -/

/-- The memory reader is open, and for every method id lookup the two strings
passed to it (by the serial number of the call) are still where the caller put
them when its return is processed, short enough for the reader's buffer, the
name without a parenthesis. -/
structure LookupsReadable (S : Session) (recs : List Record) (passed : Nat → Bytes × Bytes) :
    Prop where
  reader : ∀ r ∈ recs, r.env.mr.isSome = true
  strings : ∀ i j e r slot mem, Completed S recs i j e r slot →
    isMethodLookup (slotName slot) = true → r.env.mr = some mem →
    mem.HoldsString (e.evt.a.get 2) (passed r.call).1 ∧
      mem.HoldsString (e.evt.a.get 3) (passed r.call).2
  short : ∀ call, (passed call).1.length < 256 ∧ (passed call).2.length < 256
  plain : ∀ call, 40 ∉ (passed call).1

/-- The record at position `j` is the return of a method id lookup that
returned `m` for valid strings. -/
def Taught (S : Session) (recs : List Record) (passed : Nat → Bytes × Bytes) (m : UInt64)
    (j : Nat) : Prop :=
  ∃ i e r slot, Completed S recs i j e r slot ∧ isMethodLookup (slotName slot) = true ∧
    r.evt.rc = m ∧ m ≠ 0 ∧ validName (passed r.call).1 = true ∧ validSig (passed r.call).2 = true

/-- What is stored under an id after `n` records: the strings of the latest
lookup among them that taught it, or nothing if there was none. -/
def FromLatest (S : Session) (recs : List Record) (passed : Nat → Bytes × Bytes) (m : UInt64)
    (n : Nat) : Option Bytes → Prop
  | none => ∀ j < n, ¬ Taught S recs passed m j
  | some full => ∃ j r, j < n ∧ Taught S recs passed m j ∧
      (∀ j', j < j' → j' < n → ¬ Taught S recs passed m j') ∧ recs[j]? = some r ∧
      full = (passed r.call).1 ++ (passed r.call).2

theorem Taught.rc {S : Session} {recs : List Record} {passed : Nat → Bytes × Bytes} {m : UInt64}
    {j : Nat} (h : Taught S recs passed m j) {r : Record} (hr : recs[j]? = some r) :
    r.evt.rc = m := by
  obtain ⟨i, e, r', slot, hcall, -, hrc, -⟩ := h
  obtain rfl : r = r' := Option.some.inj (hr.symm.trans hcall.returned)
  exact hrc

section Latest

variable {S : Session} {recs : List Record} {passed : Nat → Bytes × Bytes} {m : UInt64} {n : Nat}

/-- A record that teaches nothing about `m` leaves the latest lookup as it was. -/
theorem FromLatest.skip {o : Option Bytes} (h : FromLatest S recs passed m n o)
    (hnot : ¬ Taught S recs passed m n) : FromLatest S recs passed m (n + 1) o := by
  have hsplit {j : Nat} (hj : j < n + 1) : j < n ∨ j = n := by omega
  cases o with
  | none =>
      intro j hj
      rcases hsplit hj with hlt | rfl
      · exact h j hlt
      · exact hnot
  | some full =>
      obtain ⟨j, r, hj, htaught, hlater, hrest⟩ := h
      refine ⟨j, r, by omega, htaught, ?_, hrest⟩
      intro j' hlow hhigh
      rcases hsplit hhigh with hlt | rfl
      · exact hlater j' hlow hlt
      · exact hnot

theorem FromLatest.known {o : Option Bytes} (h : FromLatest S recs passed m n o) :
    o.isSome = true ↔ ∃ j < n, Taught S recs passed m j := by
  cases o with
  | none =>
      simp only [Option.isSome_none, Bool.false_eq_true, false_iff]
      rintro ⟨j, hj, htaught⟩
      exact h j hj htaught
  | some full =>
      obtain ⟨j, r, hj, htaught, -⟩ := h
      exact iff_of_true rfl ⟨j, hj, htaught⟩

/-- The latest lookup is the only one that nothing follows. -/
theorem FromLatest.latest {o : Option Bytes} (h : FromLatest S recs passed m n o) {j : Nat}
    {r : Record} (hj : j < n) (htaught : Taught S recs passed m j)
    (hlater : ∀ j', j < j' → j' < n → ¬ Taught S recs passed m j') (hr : recs[j]? = some r) :
    o = some ((passed r.call).1 ++ (passed r.call).2) := by
  cases o with
  | none => exact absurd htaught (h j hj)
  | some full =>
      obtain ⟨j', r', hj', htaught', hlater', hr', rfl⟩ := h
      obtain rfl : j' = j := by
        rcases Nat.lt_trichotomy j' j with hlt | heq | hgt
        · exact absurd htaught (hlater' j hlt hj)
        · exact heq
        · exact absurd htaught' (hlater j' hgt hj')
      obtain rfl : r' = r := Option.some.inj (hr'.symm.trans hr)
      rfl

end Latest

/-! ### The run -/

section Run

variable {S : Session} {att : Attachment} {acts : List Action} {passed : Nat → Bytes × Bytes}

/-- What the return of a method id lookup stores: exactly when it teaches. -/
theorem namesId_lookup (hread : LookupsReadable S (Machine.run S att acts).ring passed)
    {i j : Nat} {e r : Record} {slot : Nat} (cs : Caches)
    (hcall : Completed S (Machine.run S att acts).ring i j e r slot)
    (hlookup : isMethodLookup (slotName slot) = true) :
    cstr r.env.mr (e.evt.a.get 2) = (passed r.call).1 ∧
      cstr r.env.mr (e.evt.a.get 3) = (passed r.call).2 ∧
      (namesId r.env.mr (storedFrame S e.env e.evt slot cs) r.evt.rc = true ↔
        Taught S (Machine.run S att acts).ring passed r.evt.rc j) := by
  have hreader := hread.reader r (List.mem_of_getElem? hcall.returned)
  obtain ⟨mem, hmem⟩ := Option.isSome_iff_exists.mp hreader
  obtain ⟨hname, hsig⟩ := hread.strings i j e r slot mem hcall hlookup hmem
  obtain ⟨hshort, hshort'⟩ := hread.short r.call
  have hname' : cstr r.env.mr (e.evt.a.get 2) = (passed r.call).1 := by
    rw [hmem]
    exact cstr_of_holdsString hname hshort
  have hsig' : cstr r.env.mr (e.evt.a.get 3) = (passed r.call).2 := by
    rw [hmem]
    exact cstr_of_holdsString hsig hshort'
  have hcase : returnCase (slotName slot) = .getId := (returnCase_getId _).mpr (Or.inl hlookup)
  refine ⟨hname', hsig', ?_⟩
  simp only [namesId, storedFrame_slot, storedFrame_a2, storedFrame_a3, hcase, hreader, hname',
    hsig', decide_true, Bool.and_true, Bool.true_and, Bool.and_eq_true, decide_eq_true_eq]
  constructor
  · rintro ⟨⟨hrc, hvalid⟩, hvalid'⟩
    exact ⟨i, e, r, slot, hcall, hlookup, rfl, hrc, hvalid, hvalid'⟩
  · rintro ⟨i', e', r', slot', hcall', -, -, hrc, hvalid, hvalid'⟩
    obtain ⟨-, rfl, -⟩ := hcall.unique hcall'
    exact ⟨⟨hrc, hvalid⟩, hvalid'⟩

/-- When returns are paired, `idName` holds, for every id that no field lookup
returned, the strings of the latest method id lookup that returned it. -/
theorem idName_fromLatest (h : PairsOwn S (Machine.run S att acts).ring) (hall : S.cfg.tid = 0)
    (hread : LookupsReadable S (Machine.run S att acts).ring passed) (m : UInt64) (n : Nat)
    (hn : n ≤ (Machine.run S att acts).ring.length)
    (hfield : ∀ i j e r slot, j < n → Completed S (Machine.run S att acts).ring i j e r slot →
      isFieldLookup (slotName slot) = true → r.evt.rc ≠ m) :
    FromLatest S (Machine.run S att acts).ring passed m n
      ((Tracker.after S ((Machine.run S att acts).ring.take n)).caches.idName m) := by
  induction n with
  | zero =>
      intro j hj
      omega
  | succ n ih =>
      have hold := ih (by omega) (fun i j e r slot hj => hfield i j e r slot (by omega))
      have hr := List.getElem?_eq_getElem (show n < (Machine.run S att acts).ring.length by omega)
      have hw : watched S.cfg ((Machine.run S att acts).ring[n]).evt.tid = true := by
        simp [watched, hall]
      rcases h.caches_step hr hw with ⟨hkind, hsame⟩ | ⟨i, e, slot, -, hcall, hlearnt⟩
      · rw [hsame]
        apply hold.skip
        rintro ⟨i, e, r, slot, hcall, -⟩
        obtain rfl := Option.some.inj (hr.symm.trans hcall.returned)
        exact hkind hcall.ret
      · rw [hlearnt, learn_idName]
        by_cases hlookup : isMethodLookup (slotName slot) = true
        · obtain ⟨hname, hsig, hteaches⟩ := namesId_lookup hread
            (Tracker.after S ((Machine.run S att acts).ring.take i)).caches hcall hlookup
          by_cases hnames : namesId ((Machine.run S att acts).ring[n]).env.mr
              (storedFrame S e.env e.evt slot
                (Tracker.after S ((Machine.run S att acts).ring.take i)).caches)
              ((Machine.run S att acts).ring[n]).evt.rc = true
          · rw [if_pos hnames, storedFrame_a2, storedFrame_a3, hname, hsig]
            by_cases hm : m = ((Machine.run S att acts).ring[n]).evt.rc
            · subst hm
              rw [Function.update_self]
              exact ⟨n, _, by omega, hteaches.mp hnames, fun j' hlow hhigh => by omega, hr, rfl⟩
            · rw [Function.update_of_ne hm]
              exact hold.skip (fun htaught => hm (htaught.rc hr).symm)
          · rw [if_neg hnames]
            apply hold.skip
            intro htaught
            obtain rfl := htaught.rc hr
            exact hnames (hteaches.mpr htaught)
        · have hnot : ¬ Taught S (Machine.run S att acts).ring passed m n := by
            rintro ⟨i', e', r', slot', hcall', hlookup', -⟩
            obtain ⟨-, -, rfl, -⟩ := hcall.unique hcall'
            exact hlookup hlookup'
          split
          · rename_i hnames
            have hcase : returnCase (slotName slot) = .getId := by
              simp only [namesId, storedFrame_slot, Bool.and_eq_true, decide_eq_true_eq] at hnames
              exact of_decide_eq_true hnames.1.1.2
            have hfieldLookup := ((returnCase_getId _).mp hcase).resolve_left hlookup
            have hne := hfield i n e _ slot (by omega) hcall hfieldLookup
            rw [Function.update_of_ne hne.symm]
            exact hold.skip hnot
          · exact hold.skip hnot

end Run

/-- Method names in a run of all threads whose returns are paired with their
own calls. When the entry of a call function with method id `m` is processed,
`m` is known exactly when the return of a method id lookup with valid strings
has brought it, and the text then has the strings passed to the latest such
lookup, provided that signatures begin with a parenthesis and that no field
lookup has returned `m`. -/
theorem method_name_resolution (S : Session) (att : Attachment) (acts : List Action)
    (h : PairsOwn S (Machine.run S att acts).ring)
    (hall : S.cfg.tid = 0) (passed : Nat → Bytes × Bytes)
    (hread : LookupsReadable S (Machine.run S att acts).ring passed)
    (hsig : ∀ call, validSig (passed call).2 = true → (passed call).2.head? = some 40)
    (n : Nat) (e : Record) (slot : Nat) (ix : Fin nargs)
    (he : (Machine.run S att acts).ring[n]? = some e)
    (hix : isCallMethod (slotName slot) = some ix)
    (hfield : ∀ i j e' r slot', j < n →
      Completed S (Machine.run S att acts).ring i j e' r slot' →
      isFieldLookup (slotName slot') = true → r.evt.rc ≠ e.evt.a.get ix) :
    ((describeCall e.evt (slotName slot)
        (Tracker.after S ((Machine.run S att acts).ring.take n)).caches e.env.mr).2 = true ↔
      ∃ j < n, Taught S (Machine.run S att acts).ring passed (e.evt.a.get ix) j) ∧
    ∀ j r, j < n → Taught S (Machine.run S att acts).ring passed (e.evt.a.get ix) j →
      (∀ j', j < j' → j' < n →
        ¬ Taught S (Machine.run S att acts).ring passed (e.evt.a.get ix) j') →
      (Machine.run S att acts).ring[j]? = some r →
      describeCall e.evt (slotName slot)
          (Tracker.after S ((Machine.run S att acts).ring.take n)).caches e.env.mr =
        (describeClass e.evt (e.evt.a.get ix)
            (Tracker.after S ((Machine.run S att acts).ring.take n)).caches e.env.mr ++
          str "." ++ (passed r.call).1 ++ str "(" ++
          join (decodeArgs e.evt (slotName slot) (parseParams (passed r.call).2)
            (Tracker.after S ((Machine.run S att acts).ring.take n)).caches e.env.mr)
            (str ", ") ++ str ")", true) := by
  obtain ⟨hlt, -⟩ := List.getElem?_eq_some_iff.mp he
  have hlatest := idName_fromLatest h hall hread (e.evt.a.get ix) n hlt.le hfield
  refine ⟨?_, ?_⟩
  · rw [describeCall_known _ _ hix]
    exact hlatest.known
  · intro j r hj htaught hlater hr
    have hname := hlatest.latest hj htaught hlater hr
    obtain ⟨i, e', r', slot', hcall, -, -, -, -, hvalid⟩ := htaught
    obtain rfl : r = r' := Option.some.inj (hr.symm.trans hcall.returned)
    exact describeCall_of_idName _ _ hix hname (hread.plain r.call)
      (hsig r.call hvalid)

/-! ### The conditions are needed -/

namespace Scenario

/-- The name `f` at `0x1000` and a signature at `0x2000`. -/
def lookupMemory (sig : Bytes) : UserMemory := textMemory [(0x1000, str "f"), (0x2000, sig)]

/-- A hit that fits a lookup of `f`, its return of the id `0x1000`, and a call
through this id. -/
def lookupHit (sig : Bytes) : Hit :=
  hit #v[0x1000, 0x3000, 0x1000, 0x2000, 0] (some (lookupMemory sig))

/-- A lookup at offset `off`, then a call at offset `callee`. -/
def lookupRun (off callee : UInt64) (sig : Bytes) : List Action :=
  [.enter 1 off (lookupHit sig), .leave 1 (lookupHit sig), .enter 1 callee (lookupHit sig)]

theorem mem_lookupRun {off callee : UInt64} {sig : Bytes} {a : Action}
    (h : a ∈ lookupRun off callee sig) : a.hit = lookupHit sig := by
  simp only [lookupRun, List.mem_cons, List.not_mem_nil, or_false] at h
  rcases h with rfl | rfl | rfl
  · rfl
  · rfl
  · rfl

/-- Every record of the run sees the same registers and the same memory. -/
theorem lookupRun_records (S : Session) (off callee : UInt64) (sig : Bytes) :
    ∀ r ∈ (Machine.run S .all (lookupRun off callee sig)).ring,
      r.env.mr = some (lookupMemory sig) ∧
        (r.evt.kind = 0 → r.evt.a = #v[0x1000, 0x3000, 0x1000, 0x2000, 0]) ∧
        (r.evt.kind = 1 → r.evt.rc = 0x1000) := by
  apply Machine.forall_ring
  · intro m tid off' hit raw hmem
    obtain rfl : hit = lookupHit sig := mem_lookupRun hmem
    refine ⟨rfl, ?_, ?_⟩
    · intro _
      rw [entryEvt_a]
      rfl
    · intro hkind
      rw [entryEvt_kind] at hkind
      cases hkind
  · intro m tid hit call raw hmem
    obtain rfl : hit = lookupHit sig := mem_lookupRun hmem
    refine ⟨rfl, ?_, fun _ => rfl⟩
    intro hkind
    cases hkind

theorem lookupRun_readable (S : Session) (off callee : UInt64) (sig : Bytes)
    (hname : (lookupMemory sig).HoldsString 0x1000 (str "f"))
    (hsig : (lookupMemory sig).HoldsString 0x2000 sig) (hlen : sig.length < 256) :
    LookupsReadable S (Machine.run S .all (lookupRun off callee sig)).ring
      (fun _ => (str "f", sig)) := by
  have hrecords := lookupRun_records S off callee sig
  have hshort : (str "f").length < 256 := by decide
  have hplain : 40 ∉ str "f" := by decide
  refine ⟨?_, ?_, fun _ => ⟨hshort, hlen⟩, fun _ => hplain⟩
  · intro r hr
    rw [(hrecords r hr).1]
    rfl
  · intro i j e r slot mem hcall _ hmem
    obtain ⟨-, ha, -⟩ := hrecords e (List.mem_of_getElem? hcall.entered)
    obtain ⟨hmr, -, -⟩ := hrecords r (List.mem_of_getElem? hcall.returned)
    obtain rfl : lookupMemory sig = mem := Option.some.inj (hmr.symm.trans hmem)
    rw [ha hcall.entry]
    exact ⟨hname, hsig⟩

/-- `GetMethodID` at offset 8192, behind as many offsets as `hasret` holds, and
`CallVoidMethod` at offset 8193. -/
def lookupCrowd : Session :=
  session
    (offsetsOf (fun i => if i < 8192 then 6 else if i = 8192 then 33 else 61) 8194 (by decide))

/-- `GetMethodID` at offset 0, `GetFieldID` at 1 and `CallVoidMethod` at 2. -/
def lookupSession : Session := session (table [33, 94, 61])

/-- A lookup at an offset that `hasret` has no room for: its return finds no
frame and teaches nothing. -/
theorem lookupRun_overflow (S : Session) (off callee : UInt64) (sig : Bytes)
    (hall : S.cfg.tid = 0) (htracked : S.tracked off = true) (hfull : S.hasret off = false)
    (hcallee : callee ∈ S.offsets) :
    ∃ e r c, (Machine.run S .all (lookupRun off callee sig)).ring = [e, r, c] ∧ e.evt.kind = 0 ∧
      e.evt.ip - S.base = off ∧ r.evt.kind = 1 ∧ e.call = r.call ∧ c.evt.kind = 0 ∧
      (Tracker.after S [e, r]).caches = newCaches := by
  have hw (t : UInt32) : watched S.cfg t = true := by simp [watched, hall]
  have hlive {o : UInt64} (h : o ∈ S.offsets) : S.entryLive .all o = true := by
    simpa [S.entryLive_all] using h
  simp only [lookupRun, Machine.run, Runs.run_cons, Runs.run_nil, Machine.step]
  have hfirst : Machine.enter S .all Machine.start 1 off (lookupHit sig) = _ :=
    Machine.enter_recorded blank (hlive (S.mem_offsets_of_tracked htracked)) rfl
  generalize Machine.enter S .all Machine.start 1 off (lookupHit sig) = m at hfirst
  have hring : m.ring = [Machine.enterRecord S Machine.start 1 off (lookupHit sig) blank] := by
    rw [hfirst]
    rfl
  have hstack : m.callStacks 1 =
      [⟨0, off, Machine.counts S .all Machine.start 1 off (lookupHit sig)⟩] := by
    rw [hfirst]
    rfl
  have hsecond : Machine.leave S .all m 1 (lookupHit sig) = _ :=
    Machine.leave_recorded blank hstack ((S.returnLive_all off).trans htracked) rfl
  have hring' : (Machine.leave S .all m 1 (lookupHit sig)).ring =
      m.ring ++ [Machine.leaveRecord m 1 (lookupHit sig) 0 blank] := by
    rw [hsecond]
  generalize Machine.leave S .all m 1 (lookupHit sig) = m' at hring'
  have hthird : Machine.enter S .all m' 1 callee (lookupHit sig) = _ :=
    Machine.enter_recorded blank (hlive hcallee) rfl
  refine ⟨Machine.enterRecord S Machine.start 1 off (lookupHit sig) blank,
    Machine.leaveRecord m 1 (lookupHit sig) 0 blank,
    Machine.enterRecord S m' 1 callee (lookupHit sig) blank, ?_, ?_, ?_, rfl, rfl, ?_, ?_⟩
  · rw [hthird, hring', hring]
    rfl
  · simp
  · simpa using Machine.entryCtx_offset
  · simp
  · have hentry :
        Tracker.after S [Machine.enterRecord S Machine.start 1 off (lookupHit sig) blank] =
        (handleEntry S (lookupHit sig).env Tracker.start (Machine.enterRecord S Machine.start 1 off
          (lookupHit sig) blank).evt).1 := by
      rw [← handleEvent_entry _ _ _ (hw _) (by simp)]
      rfl
    have hnone (k : Key) : (Tracker.after S [Machine.enterRecord S Machine.start 1 off
        (lookupHit sig) blank]).frames k = none := by
      rw [← Option.not_isSome_iff_eq_none, frames_isSome, ← List.nil_append [_], provenance_concat,
        provenanceStep_entry, hfull]
      simp [provenance]
    rw [← List.singleton_append, Tracker.after_concat, handleEvent_return _ _ _ (hw _) rfl,
      handleReturn_missing _ _ _ _ (hnone _), hentry, handleEntry_caches]
    rfl

theorem lookupMemory_name (sig : Bytes) : (lookupMemory sig).HoldsString 0x1000 (str "f") where
  nonnull := by decide
  user := by decide
  bytes := rfl
  nonzero := by decide

theorem lookupMemory_voidSig : (lookupMemory (str "()V")).HoldsString 0x2000 (str "()V") where
  nonnull := by decide
  user := by decide
  bytes := by decide +kernel
  nonzero := by decide

theorem lookupMemory_intSig : (lookupMemory (str "I")).HoldsString 0x2000 (str "I") where
  nonnull := by decide
  user := by decide
  bytes := by decide +kernel
  nonzero := by decide

theorem lossless_lookupRun (off callee : UInt64) (sig : Bytes) :
    Lossless (lookupRun off callee sig) where
  threads := by simp [lookupRun, Action.tid]
  reserved a ha := by
    rw [mem_lookupRun ha]
    rfl

/-- No entry of this run is a method id lookup. -/
theorem fieldLookupRun_entries :
    ∀ e ∈ (Machine.run lookupSession .all (lookupRun 1 2 (str "I"))).ring, e.evt.kind = 0 →
      (lookupSession.slotAt (e.evt.ip - lookupSession.base)).any
        (fun slot => isMethodLookup (slotName slot)) = false := by
  decide +kernel

end Scenario

open Scenario in
/-- A lookup of `f` with signature `()V`, then a call through the id it returned. -/
theorem method_name_resolution_lookup :
    ∃ e, (Machine.run lookupSession .all (lookupRun 0 2 (str "()V"))).ring[2]? = some e ∧
      (describeCall e.evt (slotName 61)
        (Tracker.after lookupSession ((Machine.run lookupSession .all
          (lookupRun 0 2 (str "()V"))).ring.take 2)).caches e.env.mr).2 = true := by
  have hmonitored : Monitored lookupSession (lookupRun 0 2 (str "()V")) := by
    apply Monitored.of_short
    · decide +kernel
    · decide
    · exact (lossless_lookupRun _ _ _).reserved
  have hread := lookupRun_readable lookupSession 0 2 (str "()V") (lookupMemory_name _)
    lookupMemory_voidSig (by decide)
  have hsig : ∀ call : Nat, validSig (str "()V") = true → (str "()V").head? = some 40 :=
    fun _ _ => by decide
  have hentries : ∀ e ∈ (Machine.run lookupSession .all (lookupRun 0 2 (str "()V"))).ring,
      e.evt.kind = 0 → (lookupSession.slotAt (e.evt.ip - lookupSession.base)).any
        (fun slot => isFieldLookup (slotName slot)) = false := by
    decide +kernel
  have htaught : Taught lookupSession
      (Machine.run lookupSession .all (lookupRun 0 2 (str "()V"))).ring
      (fun _ => (str "f", str "()V")) 0x1000 1 :=
    ⟨0, _, _, 33, ⟨rfl, rfl, rfl, rfl, rfl, by decide +kernel⟩, by decide, rfl, by decide,
      by decide, by decide⟩
  refine ⟨_, rfl, ?_⟩
  apply (method_name_resolution lookupSession .all (lookupRun 0 2 (str "()V")) hmonitored.pairsOwn
    rfl _ hread hsig 2 _ 61 2 rfl (by decide) ?_).1.mpr
  · exact ⟨1, by decide, htaught⟩
  · intro i j e r slot _ hcall hlookup
    have hnone := hentries e (List.mem_of_getElem? hcall.entered) hcall.entry
    rw [hcall.slot, Option.any_some, hlookup] at hnone
    cases hnone

open Scenario in
/-- Every condition is needed. A lookup at an offset for which `hasret` has no
room teaches nothing, so its id stays unknown; an id that only a field lookup
returned is known; a signature that does not begin with a parenthesis becomes
part of the name. -/
theorem method_name_conditions_needed :
    (∃ recs, recs = (Machine.run lookupCrowd .all (lookupRun 8192 8193 (str "()V"))).ring ∧
      Lossless (lookupRun 8192 8193 (str "()V")) ∧
      LookupsReadable lookupCrowd recs (fun _ => (str "f", str "()V")) ∧
      Taught lookupCrowd recs (fun _ => (str "f", str "()V")) 0x1000 1 ∧
      ∃ e, recs[2]? = some e ∧ e.evt.a.get 2 = 0x1000 ∧
        (describeCall e.evt (slotName 61) (Tracker.after lookupCrowd (recs.take 2)).caches
          e.env.mr).2 = false) ∧
    (∃ recs, recs = (Machine.run lookupSession .all (lookupRun 1 2 (str "I"))).ring ∧
      Lossless (lookupRun 1 2 (str "I")) ∧
      LookupsReadable lookupSession recs (fun _ => (str "f", str "I")) ∧
      (∀ j, ¬ Taught lookupSession recs (fun _ => (str "f", str "I")) 0x1000 j) ∧
      ∃ e, recs[2]? = some e ∧ e.evt.a.get 2 = 0x1000 ∧
        (describeCall e.evt (slotName 61) (Tracker.after lookupSession (recs.take 2)).caches
          e.env.mr).2 = true) ∧
    (∃ recs, recs = (Machine.run lookupSession .all (lookupRun 0 2 (str "I"))).ring ∧
      Lossless (lookupRun 0 2 (str "I")) ∧
      LookupsReadable lookupSession recs (fun _ => (str "f", str "I")) ∧
      Taught lookupSession recs (fun _ => (str "f", str "I")) 0x1000 1 ∧
      ∃ e, recs[2]? = some e ∧ e.evt.a.get 2 = 0x1000 ∧
        describeCall e.evt (slotName 61) (Tracker.after lookupSession (recs.take 2)).caches
          e.env.mr = (str "0x3000.fI()", true)) := by
  refine ⟨⟨_, rfl, lossless_lookupRun _ _ _,
      lookupRun_readable _ _ _ _ (lookupMemory_name _) lookupMemory_voidSig (by decide), ?_⟩,
    ⟨_, rfl, lossless_lookupRun _ _ _,
      lookupRun_readable _ _ _ _ (lookupMemory_name _) lookupMemory_intSig (by decide), ?_, ?_⟩,
    ⟨_, rfl, lossless_lookupRun _ _ _,
      lookupRun_readable _ _ _ _ (lookupMemory_name _) lookupMemory_intSig (by decide), ?_, ?_⟩⟩
  · have hwatch : ∀ i < 8193, lookupCrowd.retSet (if i < 8192 then 6 else
        if i = 8192 then 33 else 61) = true := by
      intro i hi
      apply retSet_of_alwaysWatch
      by_cases hlt : i < 8192
      · rw [if_pos hlt]
        decide
      · rw [if_neg hlt, if_pos (show i = 8192 by omega)]
        decide
    obtain ⟨hfull, htracked⟩ := hasret_offsetsOf (fun i => if i < 8192 then 6 else
      if i = 8192 then 33 else 61) 8194 (by decide) (by omega) hwatch (show 8192 < 8193 by omega)
    have hslot (i : Nat) (hi : i < 8194) := slotAt_offsetsOf (fun i => if i < 8192 then 6 else
      if i = 8192 then 33 else 61) 8194 (by decide) hi
    have hcallee : (8193 : UInt64) ∈ lookupCrowd.offsets :=
      AList.lookup_isSome.mp (Option.isSome_of_mem (hslot 8193 (by omega)))
    obtain ⟨e, r, c, hring, hentry, hoff, hreturn, hcall, hkind, hcaches⟩ :=
      lookupRun_overflow lookupCrowd 8192 8193 (str "()V") rfl htracked
        (by rw [Bool.eq_false_iff]; exact fun hhas => absurd (hfull.mp hhas) (by omega)) hcallee
    have hrecords := lookupRun_records lookupCrowd 8192 8193 (str "()V")
    have hname : validName (str "f") = true := by decide
    have hsig : validSig (str "()V") = true := by decide
    rw [hring] at hrecords ⊢
    refine ⟨⟨0, e, r, 33, ⟨rfl, rfl, hentry, hreturn, hcall, ?_⟩, by decide, ?_, by decide,
      hname, hsig⟩, c, rfl, ?_, ?_⟩
    · rw [hoff]
      exact hslot 8192 (by omega)
    · exact (hrecords r (by simp)).2.2 hreturn
    · rw [(hrecords c (by simp)).2.1 hkind]
      rfl
    · have hix : isCallMethod (slotName 61) = some 2 := by decide
      rw [describeCall_known _ _ hix]
      have htake : [e, r, c].take 2 = [e, r] := rfl
      rw [htake, hcaches]
      rfl
  · rintro j ⟨i, e, r, slot, hcall, hlookup, -⟩
    have hnone := fieldLookupRun_entries e (List.mem_of_getElem? hcall.entered) hcall.entry
    rw [hcall.slot, Option.any_some, hlookup] at hnone
    cases hnone
  · exact ⟨_, rfl, rfl, by decide +kernel⟩
  · exact ⟨0, _, _, 33, ⟨rfl, rfl, rfl, rfl, rfl, by decide +kernel⟩, by decide, rfl, by decide,
      by decide, by decide⟩
  · exact ⟨_, rfl, rfl, by decide +kernel⟩

end JniProbe
