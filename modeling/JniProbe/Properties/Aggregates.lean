import JniProbe.Lib.GoNumber
import JniProbe.Properties.NoReturns

/-!
What `--count` counts. The counter is kept per line, and a line shows more than
the call it stands for, the duration of a return and the caller of an entry,
and at times less, since deep lines are indented alike. The counts are compared
with the distinct calls of a stream.
-/

namespace JniProbe

open GoText GoFormat

/-! ### A counter per line -/

section Counter

private theorem lookup_cons_eq (key : Bytes) (n : Nat) (rest : List (Bytes × Nat)) (k : Bytes) :
    ((key, n) :: rest).lookup k = if k = key then some n else rest.lookup k := by
  rw [List.lookup_cons]
  by_cases hk : k = key
  · simp [hk]
  · have hfalse : (k == key) = false := by simpa using hk
    rw [hfalse, if_neg hk]

theorem lookup_bump (counts : List (Bytes × Nat)) (line k : Bytes) :
    (bump counts line).lookup k =
      if k = line then some ((counts.lookup line).getD 0 + 1) else counts.lookup k := by
  induction counts with
  | nil =>
      rw [bump, lookup_cons_eq]
      rfl
  | cons p rest ih =>
      obtain ⟨key, n⟩ := p
      rw [bump]
      by_cases hkey : key = line
      · subst hkey
        rw [if_pos rfl, lookup_cons_eq, lookup_cons_eq, lookup_cons_eq, if_pos rfl]
        by_cases hk : k = key
        · rw [if_pos hk, if_pos hk, Option.getD_some]
        · rw [if_neg hk, if_neg hk, if_neg hk]
      · rw [if_neg hkey, lookup_cons_eq, lookup_cons_eq, lookup_cons_eq, if_neg (Ne.symm hkey), ih]
        by_cases hk : k = key
        · rw [if_pos hk, if_pos hk, if_neg (hk ▸ hkey)]
        · rw [if_neg hk, if_neg hk]

theorem keys_bump (counts : List (Bytes × Nat)) (line : Bytes) :
    (bump counts line).map Prod.fst =
      if line ∈ counts.map Prod.fst then counts.map Prod.fst
      else counts.map Prod.fst ++ [line] := by
  induction counts with
  | nil => rfl
  | cons p rest ih =>
      obtain ⟨key, n⟩ := p
      rw [bump]
      by_cases hkey : key = line
      · simp [hkey]
      · rw [if_neg hkey, List.map_cons, ih]
        by_cases hmem : line ∈ rest.map Prod.fst
        · rw [if_pos hmem, List.map_cons, if_pos (List.mem_cons_of_mem _ hmem)]
        · have hout : line ∉ key :: rest.map Prod.fst := by
            simp [Ne.symm hkey, hmem]
          rw [if_neg hmem, List.map_cons, if_neg hout, List.cons_append]

/-- The counter after these lines. -/
def countLines (lines : List Bytes) : List (Bytes × Nat) := lines.foldl bump []

theorem countLines_concat (lines : List Bytes) (line : Bytes) :
    countLines (lines ++ [line]) = bump (countLines lines) line := by
  simp [countLines]

/-- Every line is a key, with the number of times it was counted. -/
theorem lookup_countLines (lines : List Bytes) (k : Bytes) :
    (countLines lines).lookup k = if k ∈ lines then some (lines.count k) else none := by
  induction lines using List.reverseRecOn with
  | nil => rfl
  | append_singleton lines line ih =>
      rw [countLines_concat, lookup_bump]
      by_cases hk : k = line
      · subst hk
        rw [if_pos rfl, ih, if_pos List.mem_concat_self, List.count_append,
          List.count_singleton_self]
        by_cases hmem : k ∈ lines
        · rw [if_pos hmem, Option.getD_some]
        · rw [if_neg hmem, List.count_eq_zero_of_not_mem hmem, Option.getD_none]
      · have hmem : k ∈ lines ++ [line] ↔ k ∈ lines := by simp [hk]
        have hcount : (lines ++ [line]).count k = lines.count k := by
          simp [List.count_append, List.count_eq_zero_of_not_mem, hk]
        rw [if_neg hk, ih, hcount]
        simp only [hmem]

theorem keys_countLines (lines : List Bytes) :
    ((countLines lines).map Prod.fst).Nodup ∧
      ∀ k, k ∈ (countLines lines).map Prod.fst ↔ k ∈ lines := by
  induction lines using List.reverseRecOn with
  | nil => exact ⟨List.nodup_nil, fun _ => Iff.rfl⟩
  | append_singleton lines line ih =>
      obtain ⟨hnodup, hkeys⟩ := ih
      rw [countLines_concat, keys_bump]
      by_cases hmem : line ∈ (countLines lines).map Prod.fst
      · rw [if_pos hmem]
        refine ⟨hnodup, ?_⟩
        intro k
        rw [hkeys, List.mem_append, List.mem_singleton]
        constructor
        · exact Or.inl
        · rintro (h | rfl)
          · exact h
          · exact (hkeys k).mp hmem
      · rw [if_neg hmem]
        refine ⟨List.nodup_append.mpr ⟨hnodup, List.nodup_singleton _, ?_⟩, ?_⟩
        · intro a ha b hb heq
          rw [List.mem_singleton.mp hb] at heq
          exact hmem (heq ▸ ha)
        · intro k
          rw [List.mem_append, hkeys, List.mem_append]

theorem length_countLines (lines : List Bytes) :
    (countLines lines).length = lines.dedup.length := by
  obtain ⟨hnodup, hkeys⟩ := keys_countLines lines
  have hperm : ((countLines lines).map Prod.fst).Perm lines.dedup := by
    rw [List.perm_ext_iff_of_nodup hnodup lines.nodup_dedup]
    intro k
    rw [hkeys, List.mem_dedup]
  rw [← List.length_map Prod.fst, hperm.length_eq]

end Counter

/-! ### What is printed -/

/-- The calls that are told apart: direction, depth, text and returned text. -/
inductive CallClass where
  | entry (depth : Int32) (call : Bytes)
  | ret (depth : Int32) (call value : Bytes)
  deriving DecidableEq

/-- A printed line before it is put together. -/
inductive Occurrence where
  | entry (depth : Int32) (call tag : Bytes)
  | ret (depth : Int32) (call value : Bytes) (elapsed : UInt64)
  deriving DecidableEq

namespace Occurrence

def cls : Occurrence → CallClass
  | .entry depth call _ => .entry depth call
  | .ret depth call value _ => .ret depth call value

/-- What a line says of the single run: where the call came from, how long it took. -/
def measured : Occurrence → Bytes
  | .entry _ _ tag => tag
  | .ret _ _ _ elapsed => millis elapsed

def line : Occurrence → Bytes
  | .entry depth call tag => indentStr depth ++ str "-> " ++ call ++ tag
  | .ret depth call value elapsed =>
    indentStr depth ++ str "<- " ++ call ++ str " = " ++ value ++ str "  (" ++ millis elapsed ++
      str " ms)"

/-- Two lines of one direction with the same indentation, text and measurement. -/
def LooksLike : Occurrence → Occurrence → Prop
  | .entry depth call tag, .entry depth' call' tag' =>
    indentStr depth = indentStr depth' ∧ call ++ tag = call' ++ tag'
  | .ret depth call value elapsed, .ret depth' call' value' elapsed' =>
    indentStr depth = indentStr depth' ∧
      call ++ str " = " ++ value = call' ++ str " = " ++ value' ∧
      millis elapsed = millis elapsed'
  | _, _ => False

end Occurrence

/-- The occurrence that a record stands for, if it finds a frame or a slot. -/
def occurrence (S : Session) (env : Env) (t : Tracker) (e : Evt) : Option Occurrence :=
  if e.kind = 1 then
    (t.frames e.key).map (fun fr =>
      .ret e.depth fr.call
        (fmtRet (learn env.mr fr e.rc t.caches) env.mr (slotRet fr.slot) e.rc) (e.ts - fr.ts))
  else
    (S.slotAt (e.ip - S.base)).map (fun slot =>
      .entry e.depth (entryText env t e slot) (entryTag S env e slot))

/-- The occurrence of a record that is printed. -/
def printedBy (S : Session) (env : Env) (t : Tracker) (e : Evt) : Option Occurrence :=
  if (handleEvent S env t e).2.isSome then occurrence S env t e else none

/-- All printed occurrences of a stream, in order. -/
def printed (S : Session) (recs : List Record) : List Occurrence :=
  (recs.foldl
    (fun (acc : Tracker × List Occurrence) r =>
      ((handleEvent S r.env acc.1 r.evt).1,
        acc.2 ++ (printedBy S r.env acc.1 r.evt).toList))
    (Tracker.start, [])).2

section Printed

variable (S : Session)

/-- The line of a record is that of its occurrence. -/
theorem handleEvent_line (env : Env) (t : Tracker) (e : Evt) {l : Bytes}
    (hl : (handleEvent S env t e).2 = some l) :
    ∃ o, occurrence S env t e = some o ∧ l = o.line := by
  unfold handleEvent at hl
  split at hl
  · cases hl
  · split at hl
    · rename_i hkind
      rw [occurrence, if_pos hkind]
      cases hfr : t.frames e.key with
      | none =>
          rw [handleReturn_missing S env t e hfr] at hl
          cases hl
      | some fr =>
          by_cases hdepth : 0 ≤ e.depth
          · rw [handleReturn_found S env t e hdepth hfr] at hl
            exact ⟨_, rfl, returnLine_eq S env e hl⟩
          · rw [handleReturn, if_pos (Int32.not_le.mp hdepth)] at hl
            cases hl
    · rename_i hkind
      rw [occurrence, if_neg hkind]
      cases hslot : S.slotAt (e.ip - S.base) with
      | none =>
          rw [handleEntry, hslot] at hl
          cases hl
      | some slot => exact ⟨_, rfl, entry_line S env t e hslot hl⟩

theorem printedBy_line (env : Env) (t : Tracker) (e : Evt) :
    (printedBy S env t e).map Occurrence.line = (handleEvent S env t e).2 := by
  unfold printedBy
  cases hl : (handleEvent S env t e).2 with
  | none => rfl
  | some l =>
      obtain ⟨o, ho, hline⟩ := handleEvent_line S env t e hl
      rw [Option.isSome_some, if_pos rfl, ho, hline]
      rfl

theorem printed_tracker (recs : List Record) :
    (recs.foldl
      (fun (acc : Tracker × List Occurrence) r =>
        ((handleEvent S r.env acc.1 r.evt).1,
          acc.2 ++ (printedBy S r.env acc.1 r.evt).toList))
      (Tracker.start, [])).1 = Tracker.after S recs := by
  induction recs using List.reverseRecOn with
  | nil => rfl
  | append_singleton recs r ih => rw [List.foldl_concat, Tracker.after_concat, ← ih]

theorem printed_concat (recs : List Record) (r : Record) : printed S (recs ++ [r]) =
    printed S recs ++ (printedBy S r.env (Tracker.after S recs) r.evt).toList := by
  rw [printed, List.foldl_concat, printed_tracker]
  rfl

/-- With `--count` the counter holds the printed lines and nothing else. -/
theorem counts_after (hcount : S.cfg.count = true) (recs : List Record) :
    (Loader.after S recs).output.counts = countLines ((printed S recs).map Occurrence.line) := by
  induction recs using List.reverseRecOn with
  | nil => rfl
  | append_singleton recs r ih =>
      have hline := printedBy_line S r.env (Tracker.after S recs) r.evt
      rw [Loader.after_concat, printed_concat, List.map_append]
      unfold Loader.step
      rw [Loader.after_tracker]
      dsimp only
      cases hprinted : printedBy S r.env (Tracker.after S recs) r.evt with
      | none =>
          rw [hprinted, Option.map_none] at hline
          rw [← hline, Option.toList_none, List.map_nil, List.append_nil]
          exact ih
      | some o =>
          rw [hprinted, Option.map_some] at hline
          rw [← hline, Option.toList_some, List.map_singleton, countLines_concat, ← ih]
          simp only [emit, hcount, if_true]

end Printed

/-! ### When two lines are the same -/

theorem millis_no_paren (ns : UInt64) : 40 ∉ millis ns := by
  have hdigits (n : Nat) : 40 ∉ digits 10 n := by
    intro hmem
    obtain ⟨d, hd, hbyte⟩ := GoNumber.mem_digits (by decide) hmem
    have hall : ∀ d : Fin 10, 40 ≠ GoNumber.digitByte d := by decide
    exact hall ⟨d, hd⟩ hbyte
  have hpoint : 40 ∉ str "." := by decide
  intro hmem
  unfold millis fixed3 at hmem
  simp only [List.mem_append] at hmem
  rcases hmem with ((hwhole | hdot) | hzeros) | hfrac
  · exact hdigits _ hwhole
  · exact hpoint hdot
  · exact absurd (List.eq_of_mem_replicate hzeros) (by decide)
  · exact hdigits _ hfrac

theorem indentStr_spaces (d : Int32) : ∃ k, indentStr d = List.replicate k 32 := by
  have hlevel : str "  " = List.replicate 2 32 := rfl
  unfold indentStr
  split
  · exact ⟨0, rfl⟩
  · rw [hlevel, List.flatten_replicate_replicate]
    exact ⟨_, rfl⟩

theorem spaces_inj {c c' : UInt8} {rest rest' : Bytes} (hc : c ≠ 32) (hc' : c' ≠ 32) {k k' : Nat}
    (h : List.replicate k 32 ++ c :: rest = List.replicate k' 32 ++ c' :: rest') :
    k = k' ∧ c :: rest = c' :: rest' := by
  induction k generalizing k' with
  | zero =>
      cases k' with
      | zero => exact ⟨rfl, h⟩
      | succ k' => exact absurd (List.cons.inj h).1 hc
  | succ k ih =>
      cases k' with
      | zero => exact absurd (List.cons.inj h).1.symm hc'
      | succ k' =>
          obtain ⟨hk, hrest⟩ := ih (List.cons.inj h).2
          exact ⟨congrArg Nat.succ hk, hrest⟩

/-- Indentation and what follows it are found again in a line. -/
theorem indent_inj {d d' : Int32} {c c' : UInt8} {rest rest' : Bytes} (hc : c ≠ 32) (hc' : c' ≠ 32)
    (h : indentStr d ++ c :: rest = indentStr d' ++ c' :: rest') :
    indentStr d = indentStr d' ∧ c :: rest = c' :: rest' := by
  obtain ⟨k, hk⟩ := indentStr_spaces d
  obtain ⟨k', hk'⟩ := indentStr_spaces d'
  rw [hk, hk'] at h ⊢
  obtain ⟨hsame, hrest⟩ := spaces_inj hc hc' h
  exact ⟨congrArg (List.replicate · 32) hsame, hrest⟩

namespace Occurrence

theorem line_entry (depth : Int32) (call tag : Bytes) :
    line (.entry depth call tag) = indentStr depth ++ 45 :: (str "> " ++ (call ++ tag)) := by
  have harrow : str "-> " = 45 :: str "> " := rfl
  simp only [line, harrow, List.append_assoc, List.cons_append]

/-- The line of a return, cut at the parenthesis before the time. -/
theorem line_ret (depth : Int32) (call value : Bytes) (elapsed : UInt64) :
    line (.ret depth call value elapsed) = indentStr depth ++
      60 :: (str "- " ++ ((call ++ str " = " ++ value ++ str "  ") ++
        40 :: (millis elapsed ++ str " ms)"))) := by
  have hback : str "<- " = 60 :: str "- " := rfl
  have hopen : str "  (" = str "  " ++ [40] := rfl
  simp only [line, hback, hopen, List.append_assoc, List.cons_append, List.nil_append]

theorem line_entry_ne_ret (depth depth' : Int32) (call call' tag value : Bytes)
    (elapsed : UInt64) : line (.entry depth call tag) ≠ line (.ret depth' call' value elapsed) := by
  rw [line_entry, line_ret]
  intro h
  obtain ⟨-, hrest⟩ := indent_inj (by decide) (by decide) h
  exact absurd (List.cons.inj hrest).1 (by decide)

theorem line_entry_inj {depth depth' : Int32} {call call' tag tag' : Bytes}
    (h : line (.entry depth call tag) = line (.entry depth' call' tag')) :
    indentStr depth = indentStr depth' ∧ call ++ tag = call' ++ tag' := by
  rw [line_entry, line_entry] at h
  obtain ⟨hindent, hrest⟩ := indent_inj (by decide) (by decide) h
  exact ⟨hindent, List.append_cancel_left (List.cons.inj hrest).2⟩

theorem line_ret_inj {depth depth' : Int32} {call call' value value' : Bytes}
    {elapsed elapsed' : UInt64}
    (h : line (.ret depth call value elapsed) = line (.ret depth' call' value' elapsed')) :
    indentStr depth = indentStr depth' ∧
      call ++ str " = " ++ value = call' ++ str " = " ++ value' ∧
      millis elapsed = millis elapsed' := by
  rw [line_ret, line_ret] at h
  obtain ⟨hindent, hrest⟩ := indent_inj (by decide) (by decide) h
  have htail := List.append_cancel_left (List.cons.inj hrest).2
  have hparen (ns : UInt64) : 40 ∉ millis ns ++ str " ms)" := by
    rw [List.mem_append]
    rintro (hmem | hmem)
    · exact millis_no_paren ns hmem
    · revert hmem
      decide
  obtain ⟨htext, htime⟩ := append_byte_inj (hparen elapsed) (hparen elapsed') htail
  exact ⟨hindent, List.append_cancel_right htext, List.append_cancel_right htime⟩

/-- A line shows direction, indentation, text and measurement, and no more. -/
theorem line_eq_iff (o o' : Occurrence) : o.line = o'.line ↔ o.LooksLike o' := by
  cases o with
  | entry depth call tag =>
      cases o' with
      | entry depth' call' tag' =>
          constructor
          · exact line_entry_inj
          · rintro ⟨hindent, htext⟩
            rw [line_entry, line_entry, hindent, htext]
      | ret depth' call' value' elapsed' =>
          exact iff_of_false (line_entry_ne_ret _ _ _ _ _ _ _) id
  | ret depth call value elapsed =>
      cases o' with
      | entry depth' call' tag' =>
          exact iff_of_false (line_entry_ne_ret _ _ _ _ _ _ _).symm id
      | ret depth' call' value' elapsed' =>
          constructor
          · exact line_ret_inj
          · rintro ⟨hindent, htext, htime⟩
            rw [line_ret, line_ret, hindent, htext, htime]

theorem line_of_measured {o o' : Occurrence} (hcls : o.cls = o'.cls)
    (hmeasured : o.measured = o'.measured) : o.line = o'.line := by
  cases o with
  | entry depth call tag =>
      cases o' with
      | entry depth' call' tag' =>
          obtain ⟨rfl, rfl⟩ := CallClass.entry.inj hcls
          obtain rfl : tag = tag' := hmeasured
          rfl
      | ret depth' call' value' elapsed' => cases hcls
  | ret depth call value elapsed =>
      cases o' with
      | entry depth' call' tag' => cases hcls
      | ret depth' call' value' elapsed' =>
          obtain ⟨rfl, rfl, rfl⟩ := CallClass.ret.inj hcls
          have htime : millis elapsed = millis elapsed' := hmeasured
          rw [line, line, htime]

theorem LooksLike.measured {o o' : Occurrence} (h : o.LooksLike o') (hcls : o.cls = o'.cls) :
    o.measured = o'.measured := by
  cases o with
  | entry depth call tag =>
      cases o' with
      | entry depth' call' tag' =>
          obtain ⟨rfl, rfl⟩ := CallClass.entry.inj hcls
          exact List.append_cancel_left h.2
      | ret depth' call' value' elapsed' => cases hcls
  | ret depth call value elapsed =>
      cases o' with
      | entry depth' call' tag' => cases hcls
      | ret depth' call' value' elapsed' => exact h.2.2

end Occurrence

/-! ### Counting distinct calls -/

/-- Every printed call has one key, whose value is the number of its
occurrences, and there are no more keys than distinct calls. -/
structure CountsDistinct (S : Session) (recs : List Record) : Prop where
  oneKey : ∀ c, (∃ o ∈ printed S recs, o.cls = c) → ∃ key,
    (∀ o ∈ printed S recs, o.cls = c → o.line = key) ∧
    (Loader.after S recs).output.counts.lookup key =
      some ((printed S recs).countP (fun o => o.cls = c))
  keys : (Loader.after S recs).output.counts.length ≤
    ((printed S recs).map Occurrence.cls).dedup.length

/-- Equal values of `g` come with equal values of `f`, so `f` has no more of them. -/
theorem dedup_map_length_le {α β γ : Type} [DecidableEq β] [DecidableEq γ] (f : α → β) (g : α → γ)
    (l : List α) (h : ∀ a ∈ l, ∀ b ∈ l, g a = g b → f a = f b) :
    (l.map f).dedup.length ≤ (l.map g).dedup.length := by
  induction l with
  | nil => exact Nat.le_refl _
  | cons a rest ih =>
      have hrest := ih (fun x hx y hy =>
        h x (List.mem_cons_of_mem a hx) y (List.mem_cons_of_mem a hy))
      rw [List.map_cons, List.map_cons]
      by_cases hmem : g a ∈ rest.map g
      · obtain ⟨b, hb, hgb⟩ := List.mem_map.mp hmem
        have hfmem : f a ∈ rest.map f := by
          rw [← h b (List.mem_cons_of_mem a hb) a List.mem_cons_self hgb]
          exact List.mem_map_of_mem hb
        rwa [List.dedup_cons_of_mem hmem, List.dedup_cons_of_mem hfmem]
      · rw [List.dedup_cons_of_notMem hmem, List.length_cons]
        by_cases hfmem : f a ∈ rest.map f
        · rw [List.dedup_cons_of_mem hfmem]
          omega
        · rw [List.dedup_cons_of_notMem hfmem, List.length_cons]
          omega

/-- Two tests of which one implies the other and that succeed equally often agree. -/
theorem of_countP_eq {α : Type} {p q : α → Bool} {l : List α}
    (himp : ∀ a ∈ l, p a = true → q a = true) (hcount : l.countP p = l.countP q) :
    ∀ a ∈ l, q a = true → p a = true := by
  induction l with
  | nil =>
      intro a ha
      cases ha
  | cons b rest ih =>
      have hle : rest.countP p ≤ rest.countP q :=
        List.countP_mono_left (fun a ha => himp a (List.mem_cons_of_mem b ha))
      have hb := himp b List.mem_cons_self
      rw [List.countP_cons, List.countP_cons] at hcount
      have hsame : rest.countP p = rest.countP q ∧ (q b = true → p b = true) := by
        cases hp : p b with
        | true =>
            simp only [hp, hb hp, if_true] at hcount
            exact ⟨by omega, fun _ => rfl⟩
        | false =>
            cases hq : q b with
            | true =>
                simp only [hp, hq, Bool.false_eq_true, if_false, if_true] at hcount
                omega
            | false =>
                simp only [hp, hq, Bool.false_eq_true, if_false] at hcount
                exact ⟨by omega, fun h => h⟩
      intro a ha hq
      rcases List.mem_cons.mp ha with rfl | ha
      · exact hsame.2 hq
      · exact ih (fun x hx => himp x (List.mem_cons_of_mem b hx)) hsame.1 a ha hq

/-- Counting by line counts distinct calls exactly if lines and calls distinguish
the same occurrences. -/
theorem counts_distinct_lines {S : Session} (hcount : S.cfg.count = true) (recs : List Record) :
    CountsDistinct S recs ↔
      ∀ o ∈ printed S recs, ∀ o' ∈ printed S recs, o.cls = o'.cls ↔ o.line = o'.line := by
  have hlookup (o : Occurrence) (ho : o ∈ printed S recs) :
      (Loader.after S recs).output.counts.lookup o.line =
        some ((printed S recs).countP (fun o' => o'.line = o.line)) := by
    rw [counts_after S hcount, lookup_countLines, if_pos (List.mem_map_of_mem ho), List.count,
      List.countP_map, Option.some.injEq]
    apply List.countP_congr
    intro o' _
    simp
  constructor
  · intro h o ho o' ho'
    obtain ⟨key, hkey, hvalue⟩ := h.oneKey o.cls ⟨o, ho, rfl⟩
    constructor
    · intro hcls
      rw [hkey o ho rfl, hkey o' ho' hcls.symm]
    · intro hline
      rw [← hkey o ho rfl, hlookup o ho] at hvalue
      have himp : ∀ a ∈ printed S recs, decide (a.cls = o.cls) = true →
          decide (a.line = o.line) = true := by
        intro a ha hcls
        rw [hkey o ho rfl]
        exact decide_eq_true (hkey a ha (of_decide_eq_true hcls))
      have hback := of_countP_eq himp (Option.some.inj hvalue).symm
      exact (of_decide_eq_true (hback o' ho' (decide_eq_true hline.symm))).symm
  · intro h
    refine ⟨?_, ?_⟩
    · rintro c ⟨o, ho, rfl⟩
      refine ⟨o.line, fun o' ho' hcls => (h o' ho' o ho).mp hcls, ?_⟩
      rw [hlookup o ho]
      congr 1
      apply List.countP_congr
      intro o' ho'
      simp only [decide_eq_true_eq]
      exact (h o' ho' o ho).symm
    · rw [counts_after S hcount, length_countLines]
      exact dedup_map_length_le _ _ _ (fun o ho o' ho' => (h o ho o' ho').mp)

/-- With `--count` distinct calls are counted exactly if the printed occurrences of
one call carry the same measurement and no two of different calls look alike. -/
theorem counts_distinct_iff (S : Session) (hcount : S.cfg.count = true) (recs : List Record) :
    CountsDistinct S recs ↔ ∀ o ∈ printed S recs, ∀ o' ∈ printed S recs,
      (o.cls = o'.cls → o.measured = o'.measured) ∧ (o.LooksLike o' → o.cls = o'.cls) := by
  rw [counts_distinct_lines hcount]
  constructor
  · intro h o ho o' ho'
    refine ⟨?_, ?_⟩
    · intro hcls
      have hlook := (o.line_eq_iff o').mp ((h o ho o' ho').mp hcls)
      exact hlook.measured hcls
    · intro hlook
      exact (h o ho o' ho').mpr ((o.line_eq_iff o').mpr hlook)
  · intro h o ho o' ho'
    constructor
    · intro hcls
      exact Occurrence.line_of_measured hcls ((h o ho o' ho').1 hcls)
    · intro hline
      exact (h o ho o' ho').2 ((o.line_eq_iff o').mp hline)

namespace Scenario

/-- `FindClass` at offset 0, with `--count`. -/
def countSession : Session := ⟨{ config with count := true }, filters, table [6], 0⟩

/-- A hit at some nanosecond. -/
def hitAt (ns : UInt64) : Hit := { plainHit with ctx := { plainHit.ctx with ts := ns } }

/-- The records of two calls of it that take so long. -/
def twoCalls (first second : UInt64) : List Record :=
  (Machine.run countSession .all
    [.enter 1 0 (hitAt 0), .leave 1 (hitAt first),
      .enter 1 0 (hitAt 10000000), .leave 1 (hitAt (10000000 + second))]).ring

def findClassEntry : Occurrence := .entry 0 (str "FindClass(NULL)") []

def findClassReturn (elapsed : UInt64) : Occurrence :=
  .ret 0 (str "FindClass(NULL)") (str "null") elapsed

end Scenario

open Scenario in
/-- Two calls that differ in their durations only are counted under three keys. -/
theorem durations_split_counts :
    (Loader.after countSession (twoCalls 1000000 3000000)).output.counts =
        [(str "-> FindClass(NULL)", 2), (str "<- FindClass(NULL) = null  (1.000 ms)", 1),
          (str "<- FindClass(NULL) = null  (3.000 ms)", 1)] ∧
      printed countSession (twoCalls 1000000 3000000) =
        [findClassEntry, findClassReturn 1000000, findClassEntry, findClassReturn 3000000] ∧
      ¬ CountsDistinct countSession (twoCalls 1000000 3000000) := by
  have hcounts : (Loader.after countSession (twoCalls 1000000 3000000)).output.counts =
      [(str "-> FindClass(NULL)", 2), (str "<- FindClass(NULL) = null  (1.000 ms)", 1),
        (str "<- FindClass(NULL) = null  (3.000 ms)", 1)] := by
    decide +kernel
  have hprinted : printed countSession (twoCalls 1000000 3000000) =
      [findClassEntry, findClassReturn 1000000, findClassEntry, findClassReturn 3000000] := by
    decide +kernel
  refine ⟨hcounts, hprinted, ?_⟩
  intro h
  have hkeys := h.keys
  rw [hcounts, hprinted] at hkeys
  exact absurd hkeys (by decide)

open Scenario in
/-- Two calls that take equally long are counted under one key for each direction. -/
theorem equal_durations_counted :
    CountsDistinct countSession (twoCalls 1000000 1000000) := by
  have hprinted : printed countSession (twoCalls 1000000 1000000) =
      [findClassEntry, findClassReturn 1000000, findClassEntry, findClassReturn 1000000] := by
    decide +kernel
  have hcases : ∀ o ∈ printed countSession (twoCalls 1000000 1000000),
      o = findClassEntry ∨ o = findClassReturn 1000000 := by
    intro o ho
    rw [hprinted] at ho
    simpa [or_comm, or_left_comm] using ho
  apply (counts_distinct_iff countSession rfl _).mpr
  intro o ho o' ho'
  rcases hcases o ho with rfl | rfl
  · rcases hcases o' ho' with rfl | rfl
    · exact ⟨fun _ => rfl, fun _ => rfl⟩
    · exact ⟨fun h => (nomatch h), fun h => h.elim⟩
  · rcases hcases o' ho' with rfl | rfl
    · exact ⟨fun h => (nomatch h), fun h => h.elim⟩
    · exact ⟨fun _ => rfl, fun _ => rfl⟩

end JniProbe
