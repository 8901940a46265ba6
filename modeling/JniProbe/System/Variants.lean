import JniProbe.Loader.ArgWords
import JniProbe.System.CallArgs

/-!
The records of one call made in three ways: with its arguments one by one, as
a `va_list` and as an array of `jvalue`. For each way, where the arguments are
when the entry program runs and which captured words hold them.
-/

namespace JniProbe

open GoText Aapcs64

/-! ### Where the arguments are -/

/-- The registers behind the one of the method id, and the vector registers,
are left for the arguments of a variadic call. -/
structure InRegisters (ctx : ProbeCtx) (ix : Fin nargs) (args : List Arg)
    (contents : Place → UInt64) : Prop where
  passed : Passed (7 - ix.val) 8 args contents
  registers : ∀ k w, ctx.parm[ix.val + 1 + k]? = some w → w = contents (.gr k)

/-- At `p` is a `va_list` with `G` general and `V` vector registers left: the
stack pointer, the ends of the save areas, and in the last word the offset of
the next general register. -/
structure HoldsVaList (mem : UserMemory) (p : UInt64) (G V : Nat) (args : List Arg)
    (stk top offs : UInt64) (contents : Place → UInt64) : Prop where
  readable : (mem.readRun p 32).length = 32
  stackWord : mem.word p 8 = some stk.toNat
  topWord : mem.word (p + 8) 8 = some top.toNat
  offsWord : mem.word (p + 24) 8 = some offs.toNat
  offset : offs.toUInt32.toInt32 = Int32.ofInt (-(8 * G))
  nonnull : 0 < G → top ≠ 0
  passed : Passed G V args contents
  saved : ∀ k, .gr k ∈ place G V (args.map Arg.isFp) →
    mem.word (top - (G - k).toUInt64 * 8) 8 = some (contents (.gr k)).toNat
  spilled : ∀ k, .stack k ∈ place G V (args.map Arg.isFp) →
    mem.word (stk + k.toUInt64 * 8) 8 = some (contents (.stack k)).toNat

/-- At `p` is an array of `jvalue`s that hold the arguments. -/
def InArray (mem : UserMemory) (p : UInt64) (args : List Arg) : Prop :=
  ∀ (i : Nat) (a : Arg), args[i]? = some a →
    ∃ w : UInt64, mem.word (p + i.toUInt64 * 8) 8 = some w.toNat ∧ a.InUnion w

/-! ### The records -/

/-- The record of an entry at this offset, for the method `mid`. -/
structure EntryOf (S : Session) (off : UInt64) (ix : Fin nargs) (mid : UInt64) (ctx : ProbeCtx)
    (e : Evt) : Prop where
  offset : ctx.ip - S.base = off
  method : ctx.parm.get ix = mid
  record : ∃ d raw, e = entryEvt S.maps d ctx raw

def CalledDirect (S : Session) (off : UInt64) (ix : Fin nargs) (mid : UInt64) (args : List Arg)
    (e : Evt) : Prop :=
  ∃ ctx contents, EntryOf S off ix mid ctx e ∧ InRegisters ctx ix args contents

def CalledVaList (S : Session) (off : UInt64) (ix : Fin nargs) (G V : Nat) (mid : UInt64)
    (args : List Arg) (e : Evt) : Prop :=
  ∃ ctx p stk top offs contents, EntryOf S off ix mid ctx e ∧
    ctx.parm[ix.val + 1]? = some p ∧ HoldsVaList ctx.mem p G V args stk top offs contents

def CalledJvalues (S : Session) (off : UInt64) (ix : Fin nargs) (mid : UInt64) (args : List Arg)
    (e : Evt) : Prop :=
  ∃ ctx p, EntryOf S off ix mid ctx e ∧ ctx.parm[ix.val + 1]? = some p ∧ InArray ctx.mem p args

theorem EntryOf.method_eq {S : Session} {off : UInt64} {ix : Fin nargs} {mid : UInt64}
    {ctx : ProbeCtx} {e : Evt} (h : EntryOf S off ix mid ctx e) : e.a.get ix = mid := by
  obtain ⟨d, raw, rfl⟩ := h.record
  rw [entryEvt_a]
  exact h.method

/-! ### The captured words -/

section Words

variable {S : Session} {off : UInt64} {slot : Nat} {ix : Fin nargs} {mid : UInt64}
  {args : List Arg} {e : Evt}

theorem toNat_index (h : ix = 2 ∨ ix = 3) : (ix.val + 1).toUInt8.toNat = ix.val + 1 := by
  rcases h with rfl | rfl <;> rfl

theorem windowWord_captureWords {mem : UserMemory} {p w : UInt64} {i : Nat} (hi : i < ncapWords)
    (h : mem.word (p + i.toUInt64 * 8) 8 = some w.toNat) :
    windowWord (captureWords mem p) i = w := by
  rw [windowWord_of_lt _ hi, captureWords_getElem _ _ hi]
  exact probeRead_of_word h

theorem index_lt (h : ix = 2 ∨ ix = 3) : (ix.val + 1).toUInt8.toNat < nargs := by
  rcases h with rfl | rfl <;> decide

theorem parm_index (h : ix = 2 ∨ ix = 3) {parm : Vector UInt64 nargs} {p : UInt64}
    (hp : parm[ix.val + 1]? = some p) (hindex : (ix.val + 1).toUInt8.toNat < nargs) :
    parm[(ix.val + 1).toUInt8.toNat] = p := by
  obtain ⟨hlt, hget⟩ := Vector.getElem?_eq_some_iff.mp hp
  simpa only [toNat_index h] using hget

section Kinds

variable {ctx : ProbeCtx} (hcap : S.Captures off slot)
  (hix : isCallMethod (slotName slot) = some ix) (hrange : ix = 2 ∨ ix = 3)
  (hentry : EntryOf S off ix mid ctx e)
include hcap hix hrange hentry

/-- Of a `jvalue` array the first words are captured. -/
theorem EntryOf.jvalues (hkind : argKind (slotName slot) = 1) {p : UInt64}
    (hp : ctx.parm[ix.val + 1]? = some p) : e.cap = captureWords ctx.mem p := by
  obtain ⟨rfl, -, d, raw, rfl⟩ := hentry
  obtain ⟨hk, hx⟩ := hcap.lookups hix
  rw [hkind] at hk
  rw [entryEvt_jvalues (m := S.maps) d ctx raw hx (index_lt hrange) hk, parm_index hrange hp]

/-- A `va_list` is captured with its cursors, the words below the end of its
save area and the first words of its stack. -/
theorem EntryOf.vaList (hkind : argKind (slotName slot) = 2) {p : UInt64}
    (hp : ctx.parm[ix.val + 1]? = some p) {G V : Nat} {stk top offs : UInt64}
    {contents : Place → UInt64} (hG : G ≤ 8)
    (hlist : HoldsVaList ctx.mem p G V args stk top offs contents) :
    e.vgoff = grCursor G 0 ∧ e.vgr = top ∧ e.cap = captureWords ctx.mem (top - 128) ∧
      e.cap2 = captureWords ctx.mem stk := by
  obtain ⟨rfl, -, d, raw, rfl⟩ := hentry
  obtain ⟨hk, hx⟩ := hcap.lookups hix
  rw [hkind] at hk
  have hlt := index_lt hrange
  have hwords : probeReadVaList ctx.mem ctx.parm[(ix.val + 1).toUInt8.toNat] =
      probeReadVaList ctx.mem p := by
    rw [parm_index hrange hp]
  obtain ⟨-, hvgr, hvgoff, hgr, hstack⟩ :=
    entryEvt_vaList (m := S.maps) d ctx raw hx hlt hk hwords
  have hstk : (probeReadVaList ctx.mem p)[0] = stk := by
    apply probeReadVaList_of_words hlist.readable
    simpa using hlist.stackWord
  have htop : (probeReadVaList ctx.mem p)[1] = top := by
    apply probeReadVaList_of_words hlist.readable
    simpa using hlist.topWord
  have hoffs : (probeReadVaList ctx.mem p)[3] = offs := by
    apply probeReadVaList_of_words hlist.readable
    simpa using hlist.offsWord
  have hcursor : ∀ g ≤ 8, (Int32.ofInt (-(8 * (g : Nat)))).toInt64 =
      Int64.ofInt (-(8 * (g - 0 : Nat))) := by
    decide
  rw [hvgoff, hvgr, hgr, hstack, hstk, htop, hoffs, hlist.offset]
  exact ⟨hcursor G hG, rfl, rfl, rfl⟩

/-- Of a variadic call the registers behind the method id are captured, two at most. -/
theorem EntryOf.registers (hkind : argKind (slotName slot) = 3) {contents : Place → UInt64}
    (hregs : InRegisters ctx ix args contents) :
    e.ncap.toNat = 4 - ix.val ∧ ∀ i < 4 - ix.val, windowWord e.cap i = contents (.gr i) := by
  obtain ⟨rfl, -, d, raw, rfl⟩ := hentry
  obtain ⟨hk, hx⟩ := hcap.lookups hix
  rw [hkind] at hk
  obtain ⟨hncap, hfirst, hnext⟩ := entryEvt_registers (m := S.maps) d ctx raw hx
    (index_lt hrange) hk
  refine ⟨?_, ?_⟩
  · rw [hncap]
    rcases hrange with rfl | rfl <;> rfl
  · intro i hi
    rw [windowWord_of_lt _ (show i < ncapWords by unfold ncapWords; omega)]
    rcases hrange with rfl | rfl
    · have hi : i < 2 := hi
      obtain rfl | rfl : i = 0 ∨ i = 1 := by omega
      · exact hfirst.trans (hregs.registers 0 _ rfl)
      · exact (hnext (by decide)).trans (hregs.registers 1 _ rfl)
    · have hi : i < 1 := hi
      obtain rfl : i = 0 := by omega
      exact hfirst.trans (hregs.registers 0 _ rfl)

end Kinds

/-- The word of a register in the captured window that ends at the save area's end. -/
theorem windowWord_saved {mem : UserMemory} {top w : UInt64} {G k : Nat} (hG : G ≤ 8) (hk : k < G)
    (h : mem.word (top - (G - k).toUInt64 * 8) 8 = some w.toNat) :
    windowWord (captureWords mem (top - 128)) ((16 - G + k : Nat) : Int) = w := by
  have hbelow : (16 - G + k).toUInt64 + (G - k).toUInt64 = 16 := by
    have hsum : 16 - G + k + (G - k) = 16 := by omega
    rw [Nat.toUInt64_eq, Nat.toUInt64_eq, ← UInt64.ofNat_add, hsum]
    rfl
  have haddr : top - 128 + (16 - G + k).toUInt64 * 8 = top - (G - k).toUInt64 * 8 := by
    grind
  apply windowWord_captureWords (by unfold ncapWords; omega)
  rw [haddr]
  exact h

end Words

end JniProbe
