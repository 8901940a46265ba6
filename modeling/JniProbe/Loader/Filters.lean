import JniProbe.Schema

/-!
The filter state of a session. A regular expression is the predicate that its
`MatchString` computes.
-/

namespace JniProbe

open GoText

structure Filters where
  modes : List Bytes
  only : List Bytes
  exclude : List Bytes
  grep : Bytes
  classRe : Option (Bytes → Bool)
  methodRe : Option (Bytes → Bool)
  fromList : List Bytes

namespace Filters

def nameMatches (name entry : Bytes) : Bool := hasPrefix name entry || contains name entry

/-- Do the mode, only and exclude settings want this slot at all? -/
def matchSlot (f : Filters) (slot : Nat) : Bool :=
  let name := slotName slot
  let cat := category name
  let allow := f.modes.contains (str "all")
  let allow := if !allow && f.modes.contains cat then true else allow
  let allow := if f.only ≠ [] then f.only.any (nameMatches name) else allow
  f.exclude.foldl (fun allow x => if nameMatches name x then false else allow) allow

def regexMatches (re : Option (Bytes → Bool)) (s : Bytes) : Bool :=
  match re with
  | none => true
  | some p => p s

def matchLine (f : Filters) (cls method line callerMod : Bytes) : Bool :=
  if f.grep ≠ [] && !contains line f.grep then false
  else if !regexMatches f.classRe cls then false
  else if !regexMatches f.methodRe method then false
  else if f.fromList ≠ [] && !f.fromList.any (fun x => contains callerMod x) then false
  else true

end Filters

end JniProbe
