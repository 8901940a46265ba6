import JniProbe.Loader.CallTexts
import JniProbe.Properties.CallVariants
import JniProbe.Properties.ClassNames
import JniProbe.System.IdealTracer

/-!
A printed call is a call that was made. The target's side of a call is the class
of the receiver, the method that the id was looked up for and the arguments as
the C compiler passes them. The line of its entry and that of its return show
these, whatever went on before, between and beside the two.
-/

namespace JniProbe

open GoText GoFormat Aapcs64 LatestWrite

/-! ### The receiver -/

/-- In this memory the reference `v` denotes the object at `o`, which is no
class object; its class object is at `p`, named `n`. -/
structure ClassHeap.DenotesObject (heap : ClassHeap) (mem : UserMemory) (v o p : UInt64)
    (n : Bytes) : Prop where
  resolved : resolveObj (some mem) v = o
  live : o ≠ 0
  plain : heap.name o = none
  header : ∃ cp, u32 mem o = some cp ∧ cp.toUInt64 = p
  classLive : p ≠ 0
  named : heap.name p = some n

/-- The receiver of a call, a class or an object, is of the class at `p`. -/
def ClassHeap.Receives (heap : ClassHeap) (mem : UserMemory) (v p : UInt64) (n : Bytes) : Prop :=
  heap.Denotes mem v p n ∨ ∃ o, heap.DenotesObject mem v o p n

section Receiver

variable {ls : List Lesson} {heap : ClassHeap} {mem : UserMemory} {v p : UInt64} {n : Bytes}

theorem Found.name (h : Found ls p) (hfind : ∀ l ∈ ls, FindsNamed heap l) (hp : p ≠ 0)
    (hnamed : heap.name p = some n) : (taught ls).nameByClass p = some n := by
  obtain ⟨n', hn'⟩ := Option.isSome_iff_exists.mp (nameByClass_of_found h hp)
  rw [hn', ← (nameByClass_sound hfind hn').1, hnamed]

/-- An object of a class that was found is shown by the name of the class. -/
theorem ClassHeap.DenotesObject.found {o : UInt64} (hv : heap.DenotesObject mem v o p n)
    (hfind : ∀ l ∈ ls, FindsNamed heap l) (h : Found ls p) :
    classNameOfRef (taught ls) (some mem) v = n := by
  have hne : v ≠ 0 := by
    rintro rfl
    exact hv.live hv.resolved.symm
  have hnone : (taught ls).nameByClass o = none := by
    cases hname : (taught ls).nameByClass o with
    | none => rfl
    | some n' =>
        have hplain := hv.plain
        rw [(nameByClass_sound hfind hname).1] at hplain
        cases hplain
  obtain ⟨cp, hcp, hp⟩ := hv.header
  simp only [classNameOfRef, hne, if_false, hv.resolved, hv.live, hnone, Option.bind_some, hcp,
    hp, h.name hfind hv.classLive hv.named]

/-- The class part of a call is the class of the receiver. -/
theorem ClassHeap.Receives.describeClass {e : Evt} {mid : UInt64}
    (hv : heap.Receives mem (e.a.get 1) p n) (hfind : ∀ l ∈ ls, FindsNamed heap l)
    (h : Found ls p) (hhex : hasPrefix n (str "0x") = false) :
    describeClass e mid (taught ls) (some mem) = n := by
  have hshown : classNameOfRef (taught ls) (some mem) (e.a.get 1) = n ∧ n ≠ [] := by
    rcases hv with hv | ⟨o, hv⟩
    · exact ⟨hv.found hfind h, nameByClass_ne_nil (h.name hfind hv.live hv.named)⟩
    · exact ⟨hv.found hfind h, nameByClass_ne_nil (h.name hfind hv.classLive hv.named)⟩
  simp only [JniProbe.describeClass, hshown.1, hhex, Bool.false_eq_true, if_false, hshown.2]

end Receiver

/-! ### The method -/

/-- The lookup of a method: its id, and the name and the descriptor passed to it. -/
structure NamesMethod (l : Lesson) (mid : UInt64) (name : Bytes) (d : Descriptor) : Prop where
  lookup : LooksUp l
  id : l.rc = mid
  strings : ∀ mem ∈ l.mr,
    mem.HoldsString (l.a.get 2) name ∧ mem.HoldsString (l.a.get 3) d.text
  valid : validName name = true
  plain : 40 ∉ name
  short : d.text.length < 256

/-- The latest lookup that returned this id was one of this method. -/
def MethodOf (ls : List Lesson) (mid : UInt64) (name : Bytes) (d : Descriptor) : Prop :=
  ∃ before l after, ls = before ++ l :: after ∧ NamesMethod l mid name d ∧
    ∀ l' ∈ after, LooksUp l' → l'.rc ≠ mid

section Method

variable {ls : List Lesson} {mid : UInt64} {name : Bytes} {d : Descriptor}

theorem idName_taught : (taught ls).idName =
    latest (fun l : Lesson => if namesId l.mr l.frame l.rc then
      some (l.rc, cstr l.mr l.frame.a2 ++ cstr l.mr l.frame.a3) else none) ls := by
  apply foldl_eq_latest _ teach Caches.idName _ rfl
  intro cs l
  rw [teach, learn_idName]
  split
  · rfl
  · rfl

theorem validSig_text (d : Descriptor) (h : d.text.length < 256) : validSig d.text = true := by
  have hhead : d.text.head? = some 40 := rfl
  have hbracket : (str "(L[ZBCSIJFD").contains 40 = true := by decide
  have hne : d.text.length ≠ 0 := Nat.succ_ne_zero _
  have hle : d.text.length ≤ 300 := by omega
  simp only [validSig, hhead, hbracket, hne, hle, ne_eq, not_false_eq_true, decide_true,
    Bool.and_self]

/-- The id of a method that was looked up has its name and descriptor. -/
theorem MethodOf.idName (h : MethodOf ls mid name d) :
    (taught ls).idName mid = some (name ++ d.text) := by
  obtain ⟨before, l, after, rfl, hl, hafter⟩ := h
  obtain ⟨hcase, hmr, hrc⟩ := hl.lookup
  obtain ⟨mem, hmem⟩ := Option.isSome_iff_exists.mp hmr
  have hname : cstr l.mr (l.a.get 2) = name := by
    rw [hmem]
    have hlen := length_of_validName hl.valid
    exact cstr_of_holdsString (hl.strings mem hmem).1 (by omega)
  have hsig : cstr l.mr (l.a.get 3) = d.text := by
    rw [hmem]
    exact cstr_of_holdsString (hl.strings mem hmem).2 hl.short
  rw [idName_taught, latest_eq_some_iff]
  refine ⟨before, l, after, rfl, ?_, ?_⟩
  · have hnames : namesId l.mr l.frame l.rc = true := by
      have hslot : returnCase (slotName l.frame.slot) = .getId := hcase
      have ha2 : l.frame.a2 = l.a.get 2 := rfl
      have ha3 : l.frame.a3 = l.a.get 3 := rfl
      simp [namesId, hmr, hrc, hslot, ha2, ha3, hname, hsig, hl.valid, validSig_text d hl.short]
    have hstrings : cstr l.mr l.frame.a2 ++ cstr l.mr l.frame.a3 = name ++ d.text :=
      congrArg₂ (· ++ ·) hname hsig
    rw [if_pos hnames, hl.id, hstrings]
  · intro l' hl' w hw
    split at hw
    · rename_i hnames
      simp only [namesId, Bool.and_eq_true, decide_eq_true_eq] at hnames
      obtain ⟨⟨⟨⟨hmr', hrc'⟩, hcase'⟩, -⟩, -⟩ := hnames
      obtain rfl := Option.some.inj hw
      exact hafter l' hl' ⟨hcase', hmr', hrc'⟩
    · cases hw

theorem MethodOf.plain (h : MethodOf ls mid name d) : 40 ∉ name := by
  obtain ⟨-, l, -, -, hl, -⟩ := h
  exact hl.plain

end Method

/-! ### The arguments -/

/-- A call function is entered for a method with descriptor `d`, in one of the
three ways to pass its arguments. -/
inductive Passes (ctx : ProbeCtx) (slot : Nat) (ix : Fin nargs) (d : Descriptor)
    (args : List Arg) : Prop where
  | direct (contents : Place → UInt64) (hslot : slot ∈ variadicSlots)
      (hregs : InRegisters ctx ix args contents) (hgeneral : GeneralFirst (4 - ix.val) d.params)
  | vaList (base G V : Nat) (p stk top offs : UInt64) (contents : Place → UInt64)
      (hslot : base ∈ variadicSlots) (hnext : slot = base + 1) (hG : G ≤ 8)
      (hp : ctx.parm[ix.val + 1]? = some p)
      (hlist : HoldsVaList ctx.mem p G V args stk top offs contents)
      (hspill : SpillInOrder G V d.params)
  | jvalues (base : Nat) (p : UInt64) (hslot : base ∈ variadicSlots) (hnext : slot = base + 2)
      (hp : ctx.parm[ix.val + 1]? = some p) (harray : InArray ctx.mem p args)

/-- The kernel adds the thread and the address to what surrounds the call. -/
theorem Passes.entryCtx (S : Session) (tid : UInt32) (off : UInt64) {hit : Hit} {slot : Nat}
    {ix : Fin nargs} {d : Descriptor} {args : List Arg} (h : Passes hit.ctx slot ix d args) :
    Passes (Machine.entryCtx S tid off hit) slot ix d args := by
  cases h with
  | direct contents hslot hregs hgeneral =>
      exact .direct contents hslot ⟨hregs.passed, hregs.registers⟩ hgeneral
  | vaList base G V p stk top offs contents hslot hnext hG hp hlist hspill =>
      exact .vaList base G V p stk top offs contents hslot hnext hG hp hlist hspill
  | jvalues base p hslot hnext hp harray =>
      exact .jvalues base p hslot hnext hp harray

section Arguments

variable {S : Session} {off : UInt64} {slot : Nat} {ix : Fin nargs} {mid : UInt64} {ctx : ProbeCtx}
  {d : Descriptor} {args : List Arg} {e : Evt}

/-- Each of the first arguments is shown as it is or as `?`. -/
theorem Passes.shows (h : Passes ctx slot ix d args) (hcap : S.Captures off slot)
    (hix : isCallMethod (slotName slot) = some ix) (hentry : EntryOf S off ix mid ctx e)
    (hargs : List.Forall₂ ParamType.Accepts d.params args) (c : Caches)
    (mr : Option UserMemory) :
    Shows c mr d.params args ncapWords
      (decodeArgs e (slotName slot) (d.params.map ParamType.desc) c mr) := by
  cases h with
  | direct contents hslot hregs hgeneral =>
      obtain ⟨-, -, hA, hV, -, -, -, -, -, -⟩ := variadicSlots_spec slot hslot
      obtain ⟨-, -, hrange⟩ := variants_index hslot hix
      have hcalled : CalledDirect S off ix mid args e := ⟨ctx, contents, hentry, hregs⟩
      have hshows := hcalled.shows hcap hix hrange c mr hargs (by simp [argKind, hA, hV]) hgeneral
      simpa [decodeArgs, hA, hV] using hshows
  | vaList base G V p stk top offs contents hslot hnext hG hp hlist hspill =>
      subst hnext
      obtain ⟨-, -, -, -, hA, hV, -, hsame, -, -⟩ := variadicSlots_spec base hslot
      obtain ⟨-, -, hrange⟩ := variants_index hslot (hsame.symm.trans hix)
      have hcalled : CalledVaList S off ix G V mid args e :=
        ⟨ctx, p, stk, top, offs, contents, hentry, hp, hlist⟩
      have hshows := hcalled.shows hcap hix hrange c mr hargs hG (by simp [argKind, hA, hV]) hspill
      simpa [decodeArgs, hA, hV] using hshows
  | jvalues base p hslot hnext hp harray =>
      subst hnext
      obtain ⟨-, -, -, -, -, -, hA, -, hsame, -⟩ := variadicSlots_spec base hslot
      obtain ⟨-, -, hrange⟩ := variants_index hslot (hsame.symm.trans hix)
      have hcalled : CalledJvalues S off ix mid args e := ⟨ctx, p, hentry, hp, harray⟩
      rw [decodeArgs, if_pos hA]
      refine ⟨by simp [length_decodeA], ?_⟩
      intro i t a hi ht ha
      exact Or.inr (hcalled.shown hcap hix hrange c mr (by simp [argKind, hA]) hi ht ha)

end Arguments

/-! ### The call -/

/-- After the completed calls `ls` the call function at `off` is entered for the
method `name` of a receiver of the class `cls`, with these arguments. -/
structure Session.Calls (S : Session) (heap : ClassHeap) (ls : List Lesson) (off : UInt64)
    (slot : Nat) (ix : Fin nargs) (ctx : ProbeCtx) (mem : UserMemory) (cls name : Bytes)
    (d : Descriptor) (args : List Arg) : Prop where
  captures : S.Captures off slot
  index : isCallMethod (slotName slot) = some ix
  receiver : ∃ p, heap.Receives mem (ctx.parm.get 1) p cls ∧ Found ls p
  noHex : hasPrefix cls (str "0x") = false
  method : MethodOf ls (ctx.parm.get ix) name d
  accepts : List.Forall₂ ParamType.Accepts d.params args
  passes : Passes ctx slot ix d args

section Call

variable {S : Session} {att : Attachment} {before : List Action} {heap : ClassHeap} {tid : UInt32}
  {off : UInt64} {slot : Nat} {ix : Fin nargs} {hit : Hit} {raw : Evt} {mem : UserMemory}
  {cls name : Bytes} {d : Descriptor} {args : List Arg}

theorem entryOf_enterRecord (m : Machine) (mid : UInt64) (hmid : hit.ctx.parm.get ix = mid) :
    EntryOf S off ix mid (Machine.entryCtx S tid off hit)
      (Machine.enterRecord S m tid off hit raw).evt where
  offset := Machine.entryCtx_offset
  method := hmid
  record := ⟨_, raw, rfl⟩

variable (tid raw) in
/-- What `describeCall` makes of the record of a call that was made. -/
theorem Session.Calls.described
    (h : S.Calls heap (Journal.run S att before).lessons off slot ix hit.ctx mem cls name d args)
    (hpaired : PairsOwn S (Machine.run S att before).ring)
    (hfind : ∀ l ∈ (Journal.run S att before).lessons, FindsNamed heap l) :
    ∃ texts, Shows (Tracker.after S (Machine.run S att before).ring).caches (some mem) d.params args
        ncapWords texts ∧
      describeCall (Machine.enterRecord S (Machine.run S att before) tid off hit raw).evt
          (slotName slot) (Tracker.after S (Machine.run S att before).ring).caches (some mem) =
        (callText cls name texts, true) := by
  rw [hpaired.caches_taught]
  have hentry : EntryOf S off ix (hit.ctx.parm.get ix) (Machine.entryCtx S tid off hit)
      (Machine.enterRecord S (Machine.run S att before) tid off hit raw).evt :=
    entryOf_enterRecord _ _ rfl
  have ha : (Machine.enterRecord S (Machine.run S att before) tid off hit raw).evt.a =
      hit.ctx.parm := by
    rw [entryEvt_a]
    rfl
  obtain ⟨p, hreceives, hfound⟩ := h.receiver
  have hpasses : Passes (Machine.entryCtx S tid off hit) slot ix d args :=
    h.passes.entryCtx S tid off
  refine ⟨_, hpasses.shows h.captures h.index hentry h.accepts _ _, ?_⟩
  have hname := h.method.idName
  rw [← ha] at hname hreceives
  rw [describeCall_callText h.index hname, splitNameSig_append h.method.plain rfl,
    hreceives.describeClass hfind hfound h.noHex, parseParams_text]

end Call

/-! ### The lines of a call -/

/-- The lines printed for the records that `after` adds to a run. -/
def addedLines (S : Session) (att : Attachment) (before after : List Action) : List Bytes :=
  linesFrom S (Tracker.after S (Machine.run S att before).ring)
    ((Machine.run S att (before ++ after)).ring.drop (Machine.run S att before).ring.length)

section Printed

variable {S : Session} {att : Attachment} {before : List Action} {tid : UInt32} {off : UInt64}
  {hit : Hit} {raw : Evt}

theorem addedLines_of_added {after : List Action} {added : List Record}
    (h : (Machine.run S att (before ++ after)).ring = (Machine.run S att before).ring ++ added) :
    addedLines S att before after =
      linesFrom S (Tracker.after S (Machine.run S att before).ring) added := by
  rw [addedLines, h, List.drop_left]

theorem addedLines_enter (hlive : S.entryLive att off = true) (hraw : hit.reserved = some raw) :
    addedLines S att before [.enter tid off hit] =
      (handleEvent S hit.env (Tracker.after S (Machine.run S att before).ring)
        (Machine.enterRecord S (Machine.run S att before) tid off hit raw).evt).2.toList := by
  have hring : (Machine.run S att (before ++ [.enter tid off hit])).ring =
      (Machine.run S att before).ring ++
        [Machine.enterRecord S (Machine.run S att before) tid off hit raw] := by
    rw [Machine.run_concat, Machine.step, Machine.enter_recorded raw hlive hraw]
  rw [addedLines_of_added hring, linesFrom_singleton]

/-- A line printed for a return is that of the return record. -/
theorem mem_addedLines_leave {line : Bytes} (h : line ∈ addedLines S att before [.leave tid hit]) :
    ∃ call rest raw, (Machine.run S att before).callStacks tid = call :: rest ∧
      (Machine.run S att (before ++ [.leave tid hit])).ring = (Machine.run S att before).ring ++
        [Machine.leaveRecord (Machine.run S att before) tid hit call.id raw] ∧
      (handleEvent S hit.env (Tracker.after S (Machine.run S att before).ring)
        (Machine.leaveRecord (Machine.run S att before) tid hit call.id raw).evt).2 =
          some line := by
  have hrun : Machine.run S att (before ++ [.leave tid hit]) =
      (Machine.run S att before).leave S att tid hit := Machine.run_concat _ _ _ _
  rcases Machine.leave_cases S att (Machine.run S att before) tid hit with
    ⟨hsame, -⟩ | ⟨call, rest, raw, hstack, -, -, hring, -⟩
  · rw [← hrun] at hsame
    rw [addedLines_of_added (hsame.trans (List.append_nil _).symm)] at h
    cases h
  · rw [← hrun] at hring
    rw [addedLines_of_added hring, linesFrom_singleton, Option.mem_toList] at h
    exact ⟨call, rest, raw, hstack, hring, h⟩

end Printed

section Lines

variable {S : Session} {att : Attachment} {before : List Action} {tid : UInt32} {off : UInt64}
  {slot : Nat} {hit : Hit} {raw : Evt} {text : Bytes}

/-- The line of an entry whose text is known. -/
theorem entryLine_described (hslot : S.slotAt off = some slot)
    (hset : Session.callSet slot = true) {e : Evt} (hip : e.ip - S.base = off)
    (hkind : e.kind = 0) {t : Tracker}
    (htext : describeCall e (slotName slot) t.caches hit.env.mr = (text, true)) :
    (handleEvent S hit.env t e).2 =
      if watched S.cfg e.tid && selected S hit.env.filters slot e.depth &&
          acceptsText hit.env.filters text (hit.env.moduleOf e.caller) then
        some (indentStr e.depth ++ str "-> " ++ text ++ verboseTag S hit.env e)
      else none := by
  rw [← hip] at hslot
  have hdecides : (handleEvent S hit.env t e).2.isSome =
      (watched S.cfg e.tid && selected S hit.env.filters slot e.depth &&
        acceptsText hit.env.filters text (hit.env.moduleOf e.caller)) := by
    rw [event_emits S hit.env t e hkind hslot]
    simp only [acceptsEntry, hset, if_true, htext, entryText, Bool.true_or, Bool.true_and, selected]
    cases watched S.cfg e.tid <;> cases tooDeep S.cfg e.depth <;>
      cases hit.env.filters.matchSlot slot <;> rfl
  rw [← hdecides]
  cases hline : (handleEvent S hit.env t e).2 with
  | none => rfl
  | some line =>
      have hw : watched S.cfg e.tid = true := by
        rw [hline, Option.isSome_some] at hdecides
        cases hw : watched S.cfg e.tid with
        | true => rfl
        | false => simp [hw] at hdecides
      rw [handleEvent_entry _ _ _ hw hkind] at hline
      rw [entry_line S hit.env t e hslot hline, entryText, entryTag, if_pos hset, if_pos hset,
        htext]
      rfl

/-- A stored text that is shown is that of the call. -/
theorem storedCall_of_shown {env : Env} {e : Evt} {cs : Caches}
    (hset : Session.callSet slot = true) (h : storedCall S env e slot cs ≠ []) :
    storedCall S env e slot cs = (describeCall e (slotName slot) cs env.mr).1 := by
  rw [storedCall, if_pos hset] at h ⊢
  split at h
  · rename_i hselected
    rw [if_pos hselected]
  · exact absurd rfl h

/-- The record of an entry keeps its place in the ring. -/
theorem ring_at_enter (hlive : S.entryLive att off = true) (hraw : hit.reserved = some raw)
    {acts : List Action} (hwithin : before ++ [.enter tid off hit] <+: acts) :
    (Machine.run S att acts).ring[(Machine.run S att before).ring.length]? =
        some (Machine.enterRecord S (Machine.run S att before) tid off hit raw) ∧
      (Machine.run S att acts).ring.take (Machine.run S att before).ring.length =
        (Machine.run S att before).ring := by
  obtain ⟨more, hmore⟩ := Machine.ring_grows S att hwithin
  rw [Machine.run_concat, Machine.step, Machine.enter_recorded raw hlive hraw] at hmore
  rw [← hmore, List.append_assoc]
  simp

/-- The line of a return shows the text that the entry of the call had. -/
theorem returnLine_described {hit' : Hit} {during : List Action} {line : Bytes}
    (hlive : S.entryLive att off = true) (hraw : hit.reserved = some raw)
    (hslot : S.slotAt off = some slot) (hset : Session.callSet slot = true)
    (htext : (describeCall (Machine.enterRecord S (Machine.run S att before) tid off hit raw).evt
      (slotName slot) (Tracker.after S (Machine.run S att before).ring).caches
        hit.env.mr).1 = text)
    (hwithin : before ++ [.enter tid off hit] <+: during) {counted : Bool} {rest : List OpenCall}
    (hopen : (Machine.run S att during).callStacks tid =
      ⟨(Machine.run S att before).next, off, counted⟩ :: rest)
    (hpaired : PairsOwn S (Machine.run S att (during ++ [.leave tid hit'])).ring)
    (hline : line ∈ addedLines S att during [.leave tid hit']) :
    line =
      indentStr (Machine.enterRecord S (Machine.run S att before) tid off hit raw).evt.depth ++
      str "<- " ++ text ++ str " = " ++
      fmtRet (Tracker.after S (Machine.run S att (during ++ [.leave tid hit'])).ring).caches
        hit'.env.mr (slotRet slot) (hit'.ctx.parm.get 0) ++
      str "  (" ++ millis (hit'.ctx.ts - hit.ctx.ts) ++ str " ms)" := by
  obtain ⟨call, rest', raw', hstack, hring, hhandle⟩ := mem_addedLines_leave hline
  rw [hopen] at hstack
  obtain ⟨rfl, rfl⟩ := List.cons.inj hstack
  dsimp only at hring hhandle
  obtain ⟨hentry, htake⟩ := ring_at_enter hlive hraw
    (hwithin.trans (List.prefix_append _ _))
  have hr : (Machine.run S att (during ++ [.leave tid hit'])).ring[
      (Machine.run S att during).ring.length]? =
      some (Machine.leaveRecord (Machine.run S att during) tid hit'
        (Machine.run S att before).next raw') := by
    rw [hring]
    simp
  have hbefore : (Machine.run S att (during ++ [.leave tid hit'])).ring.take
      (Machine.run S att during).ring.length = (Machine.run S att during).ring := by
    rw [hring, List.take_left]
  have hw : watched S.cfg tid = true := by
    rw [← Bool.not_eq_false]
    intro hw
    rw [handleEvent_unwatched _ _ _ hw] at hhandle
    cases hhandle
  -- the frame that the return finds was stored at the entry of this very call
  obtain ⟨i, e, slot', -, hcompleted, hkey, hdepth, -, hfound⟩ :=
    answered_of_paired hr (hpaired _ _ hr rfl hw)
  have hown : Completed S (Machine.run S att (during ++ [.leave tid hit'])).ring
      (Machine.run S att before).ring.length (Machine.run S att during).ring.length
      (Machine.enterRecord S (Machine.run S att before) tid off hit raw)
      (Machine.leaveRecord (Machine.run S att during) tid hit'
        (Machine.run S att before).next raw') slot :=
    ⟨hentry, hr, entryEvt_kind .., rfl, rfl, by rw [entryEvt_ip, Machine.entryCtx_offset, hslot]⟩
  obtain ⟨rfl, -, rfl, rfl⟩ := hown.unique hcompleted
  rw [htake, hbefore] at hfound
  have hreturn := handleReturn_found S hit'.env _ _ hdepth hfound
  rw [← handleEvent_return _ _ _ hw rfl] at hreturn
  have hcaches := Tracker.after_concat S (Machine.run S att during).ring
    (Machine.leaveRecord (Machine.run S att during) tid hit' (Machine.run S att before).next raw')
  rw [hreturn] at hhandle hcaches
  dsimp only at hhandle
  have hshown := congrArg Option.isSome hhandle
  rw [returnLine_emits, Option.isSome_some, Bool.and_eq_true, Bool.and_eq_true,
    decide_eq_true_eq] at hshown
  have hdepths : (Machine.enterRecord S (Machine.run S att before) tid off hit raw).evt.depth =
      (Machine.leaveRecord (Machine.run S att during) tid hit'
        (Machine.run S att before).next raw').evt.depth := congrArg Prod.snd hkey
  have htimes : (Machine.enterRecord S (Machine.run S att before) tid off hit raw).evt.ts =
      hit.ctx.ts := entryEvt_ts ..
  rw [returnLine_eq S _ _ hhandle, hring, hcaches, ← htext,
    ← storedCall_of_shown hset hshown.1.2, hdepths, ← htimes]
  rfl

end Lines

/-- The depth shown for entering `off`: untracked functions have none. -/
def Machine.depthAt (S : Session) (m : Machine) (tid : UInt32) (off : UInt64) : Int32 :=
  if S.hasret off then (DepthMap.count m.depth tid).toInt32 else -1

namespace Scenario

/-- The class `B` and its method `m`, with an `int` parameter and result. -/
def callMemory : UserMemory := textMemory
  [(0x1200, str "B"), (0x1300, str "m"), (0x1400, str "(I)I"), (0x100020, [0, 2, 0x20, 0]),
    (0x200200, [0, 0, 0x20, 0])]

/-- `FindClass`, `GetStaticMethodID` and `CallStaticIntMethod` at offsets 0, 1 and 2. -/
def intSession : Session := session (table [6, 113, 129])

def foundHit : Hit := hit #v[0x100020, 0x1200, 0, 0, 0] (some callMemory)

def idHit : Hit := hit #v[0x6000, 0x100020, 0x1300, 0x1400, 0] (some callMemory)

/-- `B.m(7)`, and its return of 5. -/
def madeHit : Hit := hit #v[5, 0x100020, 0x6000, 7, 0] (some callMemory)

/-- `B` is found and asked for `m`, which gets the id `0x6000`. -/
def lookedUp : List Action :=
  [.enter 1 0 foundHit, .leave 1 foundHit, .enter 1 1 idHit, .leave 1 idHit]

def intDescriptor : Descriptor where
  params := [.int]
  ret := str "I"
  wellFormed := by simp [ParamType.WellFormed]
  bounded := by decide

example : addedLines intSession .all (lookedUp ++ [.enter 1 2 madeHit]) [.leave 1 madeHit] =
    [str "<- B.m(7) = 5  (0.000 ms)"] := by
  decide +kernel

theorem lessons_lookedUp : (Journal.run intSession .all lookedUp).lessons =
    [⟨6, #v[0x100020, 0x1200, 0, 0, 0], 0x100020, some callMemory⟩,
      ⟨113, #v[0x6000, 0x100020, 0x1300, 0x1400, 0], 0x6000, some callMemory⟩] := rfl

theorem calls_lookedUp : intSession.Calls classHeap (Journal.run intSession .all lookedUp).lessons
    2 129 2 madeHit.ctx callMemory (str "B") (str "m") intDescriptor [.jint 7] where
  captures := ⟨by decide, by decide, by decide⟩
  index := by decide
  receiver := by
    refine ⟨0x200200, Or.inl ⟨by decide +kernel, by decide, by decide +kernel, ?_⟩, ?_⟩
    · intro cp hcp
      have hword : u32 callMemory 0x200200 = some 0x200000 := by decide +kernel
      obtain rfl := Option.some.inj (hword.symm.trans hcp)
      rfl
    · exact ⟨_, List.mem_cons_self, by decide, rfl, by decide, by decide +kernel,
        by decide +kernel⟩
  noHex := by decide
  method := by
    refine ⟨[_], ⟨113, #v[0x6000, 0x100020, 0x1300, 0x1400, 0], 0x6000, some callMemory⟩, [],
      lessons_lookedUp, ⟨⟨by decide, rfl, by decide⟩, rfl, ?_, by decide, by decide, by decide⟩,
      by simp⟩
    intro mem hmem
    obtain rfl : callMemory = mem := Option.some.inj hmem
    exact ⟨⟨by decide, by decide, by decide +kernel, by decide +kernel⟩,
      ⟨by decide, by decide, by decide +kernel, by decide +kernel⟩⟩
  accepts := List.Forall₂.cons trivial List.Forall₂.nil
  passes := by
    refine .direct (layOut (place 5 8 [false]) [7] 0) (by decide) ⟨?_, ?_⟩ (by decide)
    · have hslot : (Arg.jint 7).InSlot 7 := show (7 : UInt64).toUInt32.toInt32 = 7 by decide
      exact passed_layOut 5 8 (List.Forall₂.cons hslot List.Forall₂.nil) 0
    · intro k w hw
      rcases k with _ | _ | k
      · exact (Option.some.inj hw).symm
      · exact (Option.some.inj hw).symm
      · rw [Vector.getElem?_eq_none (by simp [nargs]; omega)] at hw
        cases hw

theorem findsNamed_lookedUp :
    ∀ l ∈ (Journal.run intSession .all lookedUp).lessons, FindsNamed classHeap l := by
  rw [lessons_lookedUp]
  intro l hl
  rcases List.mem_pair.mp hl with rfl | rfl
  · intro _ _ mem hmem
    obtain rfl : callMemory = mem := Option.some.inj hmem
    exact ⟨str "B", ⟨by decide, by decide, by decide +kernel, by decide +kernel⟩,
      by decide +kernel⟩
  · intro hslot
    exact absurd hslot (by decide)

end Scenario

end JniProbe
