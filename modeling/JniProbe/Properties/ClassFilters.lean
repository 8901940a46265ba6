import JniProbe.Loader.CallTexts
import JniProbe.System.Scenario

/-!
What `--class` and `--method` look at. Class and method are cut back out of the
text of a call, so the filters see them as long as no argument text contains a
period.
-/

namespace JniProbe

open GoText

/-- From the text of a call the class and the method name are found again
exactly when no argument text has a period; and the text of every known call is
put together like this. -/
theorem class_method_recovered_iff (mname : Bytes) (hname : 46 ∉ mname ∧ 40 ∉ mname) :
    (∀ cls args, splitClassMethod (callText cls mname args) = (cls, mname) ↔ ∀ a ∈ args, 46 ∉ a) ∧
    ∀ e nm ix c mr sig, isCallMethod nm = some ix → c.idName (e.a.get ix) = some (mname ++ sig) →
      sig.head? = some 40 → describeCall e nm c mr =
        (callText (describeClass e (e.a.get ix) c mr) mname
          (decodeArgs e nm (parseParams sig) c mr), true) := by
  constructor
  · intro cls args
    constructor
    · intro h a ha hdot
      have hlonger := @splitClassMethod_misread cls mname args a ha hdot
      rw [h] at hlonger
      exact absurd hlonger (Nat.lt_irrefl _)
    · exact splitClassMethod_callText hname
  · intro e nm ix c mr sig hix hfull hsig
    rw [describeCall_callText hix hfull, splitNameSig_append hname.2 hsig]

namespace Scenario

/-- A call of `f(D)V` with the argument 1.5. -/
def doubleCall : Evt :=
  { blank with
    a := Vector.replicate nargs 0x5000
    cap := Vector.replicate ncapWords 0x3ff8000000000000 }

def doubleCaches : Caches :=
  { newCaches with
    idName := fun _ => some (str "f(D)V")
    classNames := fun _ => some (str "p.C") }

end Scenario

open Scenario in
/-- The period of a number is taken for the one before the method name. -/
theorem argument_period_taken :
    describeCall doubleCall (str "NewObjectA") doubleCaches none =
        (callText (str "p.C") (str "f") [str "1.5"], true) ∧
      splitClassMethod (callText (str "p.C") (str "f") [str "1.5"]) =
        (str "p.C.f(1", str "5)") := by
  constructor
  · decide +kernel
  · decide +kernel

open Scenario in
/-- A call without a period among its arguments. -/
theorem class_method_recovered_ints :
    splitClassMethod (callText (str "p.C") (str "f") [str "1", str "2"]) =
      (str "p.C", str "f") := by
  apply ((class_method_recovered_iff (str "f") (by decide)).1 _ _).mpr
  decide

end JniProbe
