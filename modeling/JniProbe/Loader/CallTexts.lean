import JniProbe.Loader.ArgWords
import JniProbe.Loader.Learning

/-!
The text of a known call. `describeCall` puts class, name and argument texts
together; `splitClassMethod` cuts class and name out again at the last period,
so it finds them exactly when no argument text contains one.
-/

namespace JniProbe

open GoText

/-- `fmt.Sprintf("%s.%s(%s)", cls, mname, strings.Join(args, ", "))` -/
def callText (cls mname : Bytes) (args : List Bytes) : Bytes :=
  cls ++ str "." ++ mname ++ str "(" ++ join args (str ", ") ++ str ")"

/-- Every known call has such a text, with the decoded arguments. -/
theorem describeCall_callText {e : Evt} {nm : Bytes} {ix : Fin nargs} {c : Caches}
    {mr : Option UserMemory} {full : Bytes} (hix : isCallMethod nm = some ix)
    (hfull : c.idName (e.a.get ix) = some full) :
    describeCall e nm c mr = (callText (describeClass e (e.a.get ix) c mr) (splitNameSig full).1
      (decodeArgs e nm (parseParams (splitNameSig full).2) c mr), true) := by
  unfold describeCall
  rw [hix]
  dsimp only
  rw [hfull]
  rfl

/-- One argument text for each parameter, whichever decoder is used. -/
theorem length_decodeArgs (e : Evt) (nm : Bytes) (params : List Bytes) (c : Caches)
    (mr : Option UserMemory) : (decodeArgs e nm params c mr).length = params.length := by
  unfold decodeArgs
  split
  · exact length_decodeA e c mr params
  split
  · exact length_decodeVFrom e c mr params _ _
  · exact length_decodeDirect e c mr params

/-! ### Cutting the text apart -/

theorem mem_join {parts : List Bytes} {sep : Bytes} {b : UInt8} (h : b ∈ join parts sep) :
    (∃ p ∈ parts, b ∈ p) ∨ b ∈ sep := by
  induction parts with
  | nil => cases h
  | cons p rest ih =>
      cases rest with
      | nil =>
          left
          exact ⟨p, List.mem_singleton_self p, by simpa [join] using h⟩
      | cons q rest =>
          have hsplit : join (p :: q :: rest) sep = p ++ (sep ++ join (q :: rest) sep) := by
            simp [join]
          rw [hsplit, List.mem_append, List.mem_append] at h
          rcases h with hp | hsep | hrest
          · exact Or.inl ⟨p, List.mem_cons_self, hp⟩
          · exact Or.inr hsep
          · rcases ih hrest with ⟨r, hr, hb⟩ | hsep
            · exact Or.inl ⟨r, List.mem_cons_of_mem _ hr, hb⟩
            · exact Or.inr hsep

theorem mem_join_of_mem {parts : List Bytes} {sep p : Bytes} {b : UInt8} (hp : p ∈ parts)
    (hb : b ∈ p) : b ∈ join parts sep := by
  induction parts with
  | nil => cases hp
  | cons q rest ih =>
      cases rest with
      | nil =>
          obtain rfl := List.mem_singleton.mp hp
          simpa [join] using hb
      | cons r rest =>
          have hsplit : join (q :: r :: rest) sep = q ++ (sep ++ join (r :: rest) sep) := by
            simp [join]
          rw [hsplit, List.mem_append, List.mem_append]
          rcases List.mem_cons.mp hp with rfl | hrest
          · exact Or.inl hb
          · exact Or.inr (Or.inr (ih hrest))

/-- The name that is cut off before the first parenthesis. -/
theorem splitNameSig_name (s : Bytes) : 40 ∉ (splitNameSig s).1 := by
  by_cases hopen : 40 ∈ s
  · obtain ⟨before, after, rfl, hfirst⟩ := List.eq_append_cons_of_mem hopen
    rw [splitNameSig, indexByte_append before after 40 hfirst]
    dsimp only
    rwa [List.take_left]
  · rw [splitNameSig, indexByte_eq_none s 40 hopen]
    exact hopen

theorem count_callText (cls mname : Bytes) (args : List Bytes) :
    (callText cls mname args).count 40 =
      cls.count 40 + mname.count 40 + 1 + (join args (str ", ")).count 40 := by
  have hdot : (str ".").count 40 = 0 := by decide
  have hopen : (str "(").count 40 = 1 := by decide
  have hclose : (str ")").count 40 = 0 := by decide
  simp only [callText, List.count_append, hdot, hopen, hclose, Nat.add_zero]

/-- What lies behind the period that `splitClassMethod` finds. -/
theorem splitClassMethod_at {before after : Bytes} (h : 46 ∉ after) :
    splitClassMethod (before ++ 46 :: after) =
      (before, match indexByte after 40 with
        | some j => after.take j
        | none => after) := by
  have hlast : lastIndexByte (before ++ 46 :: after) 46 = some before.length :=
    lastIndexByte_append before after 46 h
  have hdrop : (before ++ 46 :: after).drop (before.length + 1) = after := by
    rw [← List.drop_drop, List.drop_left]
    rfl
  simp only [splitClassMethod, hlast, hdrop, List.take_left]
  cases indexByte after 40 with
  | none => rfl
  | some j => rfl

section Split

variable {cls mname : Bytes} {args : List Bytes}

theorem splitClassMethod_callText (hname : 46 ∉ mname ∧ 40 ∉ mname) (hargs : ∀ a ∈ args, 46 ∉ a) :
    splitClassMethod (callText cls mname args) = (cls, mname) := by
  have hshape : callText cls mname args =
      cls ++ 46 :: (mname ++ 40 :: (join args (str ", ") ++ str ")")) := by
    have hdot : str "." = [46] := by decide
    have hopen : str "(" = [40] := by decide
    simp only [callText, hdot, hopen, List.append_assoc, List.cons_append, List.nil_append]
  have hjoin : 46 ∉ join args (str ", ") := by
    intro h
    rcases mem_join h with ⟨a, ha, hdot⟩ | hsep
    · exact hargs a ha hdot
    · revert hsep
      decide
  have hafter : 46 ∉ mname ++ 40 :: (join args (str ", ") ++ str ")") := by
    intro h
    rw [List.mem_append, List.mem_cons, List.mem_append] at h
    rcases h with h | h | h | h
    · exact hname.1 h
    · exact absurd h (by decide)
    · exact hjoin h
    · exact absurd h (by decide)
  rw [hshape, splitClassMethod_at hafter, indexByte_append _ _ _ hname.2]
  dsimp only
  rw [List.take_left]

/-- With a period among the argument texts the class is cut behind the method name. -/
theorem splitClassMethod_misread {a : Bytes} (ha : a ∈ args) (hdot : 46 ∈ a) :
    cls.length < (splitClassMethod (callText cls mname args)).1.length := by
  have hjoin : 46 ∈ join args (str ", ") := mem_join_of_mem ha hdot
  obtain ⟨before, after, hsplit, hlast⟩ := exists_last_of_mem hjoin
  have hafter : 46 ∉ after ++ str ")" := by
    rw [List.mem_append, not_or]
    exact ⟨hlast, by decide⟩
  have hshape : callText cls mname args =
      (cls ++ (str "." ++ (mname ++ (str "(" ++ before)))) ++ 46 :: (after ++ str ")") := by
    simp only [callText, hsplit, List.append_assoc, List.cons_append]
  have hperiod : (str ".").length = 1 := by decide
  rw [hshape, splitClassMethod_at hafter]
  dsimp only
  rw [List.length_append, List.length_append, hperiod]
  omega

end Split

end JniProbe
