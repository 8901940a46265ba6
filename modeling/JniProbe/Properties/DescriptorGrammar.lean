import JniProbe.Loader.Learning
import JniProbe.Loader.ParamScan

/-!
The descriptor grammar and the two functions that take a stored method apart.
Every descriptor comes back as it was put together, and no text whatever leads
`parseParams` out of bounds or round in circles.
-/

namespace JniProbe

open GoText

/-- The name and the parameters of a method are found again in the stored text;
on any text the scanner ends, stays within it, and returns consecutive pieces
of it. -/
theorem descriptor_grammar :
    (∀ (nm : Bytes) (ts : List ParamType) (r : Bytes), 40 ∉ nm → (∀ t ∈ ts, t.WellFormed) →
      splitNameSig (nm ++ descriptorText ts r) = (nm, descriptorText ts r) ∧
        parseParams (descriptorText ts r) = ts.map ParamType.desc) ∧
    ∀ sig : Bytes, (∀ fuel, sig.length < fuel → scanSignature fuel sig = .ok (parseParams sig)) ∧
      (∀ p ∈ parseParams sig, p ≠ []) ∧ (parseParams sig).flatten <+: sig.drop 1 := by
  constructor
  · intro nm ts r hname hvalid
    constructor
    · exact splitNameSig_append hname rfl
    · exact parseParams_descriptorText hvalid r
  · intro sig
    constructor
    · intro fuel hfuel
      exact scanSignature_eq hfuel
    · exact parseParams_pieces sig

/-- A class name that contains a parenthesis and a bracket, a nested array, and
a text cut off inside a class name. -/
theorem descriptor_grammar_odd :
    splitNameSig
          (str "f" ++ descriptorText [.object (str "a)b["), .array (.array .int)] (str "V")) =
        (str "f", str "(La)b[;[[I)V") ∧
      scanSignature 6 (str "(ILab") = .ok [str "I"] := by
  obtain ⟨hdescriptors, htexts⟩ := descriptor_grammar
  have hsplit := (hdescriptors (str "f") [.object (str "a)b["), .array (.array .int)] (str "V")
    (by decide) (by
      intro t ht
      simp only [List.mem_cons, List.not_mem_nil, or_false] at ht
      rcases ht with rfl | rfl
      · show (59 : UInt8) ∉ str "a)b["
        decide
      · trivial)).1
  have hscan := (htexts (str "(ILab")).1 6 (by decide)
  constructor
  · rw [hsplit]
    rfl
  · rw [hscan]
    rfl

end JniProbe
