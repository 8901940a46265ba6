import JniProbe.Lib.GoNumber
import JniProbe.Lib.GoSplit
import JniProbe.Loader.Decode

/-!
What the loader reads of the target process before it attaches a probe: words
of its memory, the mappings of libart, and its pid when only a name is given.
-/

namespace JniProbe

open GoText GoFormat

def u64 (mem : UserMemory) (a : UInt64) : Option UInt64 :=
  let b := readAt mem a 8
  if b.length = 8 then some (UserMemory.littleEndian b).toUInt64 else none

/-! ### Mappings of libart -/

/-- A line of `/proc/<pid>/maps`; nothing reads the path but the search for
`libart.so` in the whole line. -/
structure MapLine where
  lo : UInt64
  hi : UInt64
  perms : Bytes
  fo : UInt64
  path : List Bytes

/-- A line about libart, unless it is cut short. Numbers that do not parse are
what `strconv` returns beside its error. -/
def libartLine (ln : Bytes) : Option MapLine :=
  if contains ln (str "libart.so") = false then none
  else
    match fields ln with
    | range :: perms :: off :: _ :: _ :: path :: rest =>
      (splitTwo 45 range).map (fun rng =>
        { lo := GoNumber.parseUintValue rng.1 16, hi := GoNumber.parseUintValue rng.2 16, perms,
          fo := GoNumber.parseUintValue off 16, path := path :: rest })
    | _ => none

def MapLine.isExec (m : MapLine) : Bool := contains m.perms (str "r-xp")

structure LibartBase where
  base : UInt64
  execLo : UInt64
  execHi : UInt64
  deriving DecidableEq

/-- The body of the loop over the lines. -/
def LibartBase.step (b : LibartBase) (ln : Bytes) : LibartBase :=
  match libartLine ln with
  | none => b
  | some m =>
    let b := if b.base = 0 then { b with base := m.lo - m.fo } else b
    if m.isExec then { b with execLo := m.lo, execHi := m.hi } else b

/-- `libartBase`, given what reading the maps returned. -/
def libartBase (pid : Int) (data : Except Bytes Bytes) : Except Bytes LibartBase :=
  match data with
  | .error e => .error e
  | .ok text =>
    let b := (split 10 text).foldl LibartBase.step ⟨0, 0, 0⟩
    if b.base = 0 then .error (str "libart not mapped in pid " ++ formatInt pid) else .ok b

/-- A mapping of libart that is not executable. -/
structure DataRange where
  lo : UInt64
  hi : UInt64
  ordered : lo ≤ hi

def dataRange (ln : Bytes) : Option DataRange :=
  match libartLine ln with
  | none => none
  | some m =>
    if contains m.perms (str "x") then none
    else if h : m.lo < m.hi then some ⟨m.lo, m.hi, UInt64.le_of_lt h⟩
    else none

def libartDataRanges (data : Except Bytes Bytes) : Except Bytes (List DataRange) :=
  data.map (fun text => (split 10 text).filterMap dataRange)

/-- A line as the kernel writes it is taken apart into its fields. -/
theorem libartLine_kernel {lo hi fo perms dev inode path : Bytes} {lo' hi' fo' : UInt64}
    (hlo : GoNumber.parseUint lo 16 = .ok lo') (hhi : GoNumber.parseUint hi 16 = .ok hi')
    (hfo : GoNumber.parseUint fo 16 = .ok fo') (hdash : 45 ∉ lo)
    (hwords : IsWord (lo ++ 45 :: hi) ∧ IsWord perms ∧ IsWord fo ∧ IsWord dev ∧ IsWord inode ∧
      IsWord path)
    (hlibart : contains path (str "libart.so") = true) :
    libartLine ((lo ++ 45 :: hi) ++ 32 :: (perms ++ 32 :: (fo ++ 32 :: (dev ++ 32 ::
        (inode ++ 32 :: path))))) =
      some { lo := lo', hi := hi', perms, fo := fo', path := [path] } := by
  obtain ⟨hrange, hperms, hoff, hdev, hinode, hpath⟩ := hwords
  have hline : contains ((lo ++ 45 :: hi) ++ 32 :: (perms ++ 32 :: (fo ++ 32 :: (dev ++ 32 ::
      (inode ++ 32 :: path))))) (str "libart.so") = true := by
    rw [contains_iff] at hlibart ⊢
    apply hlibart.trans
    refine ⟨(lo ++ 45 :: hi) ++ 32 :: (perms ++ 32 :: (fo ++ 32 :: (dev ++ 32 :: (inode ++ [32])))),
      [], ?_⟩
    simp only [List.append_assoc, List.cons_append, List.append_nil, List.nil_append]
  rw [libartLine, hline, fields_word_space hrange, fields_word_space hperms, fields_word_space hoff,
    fields_word_space hdev, fields_word_space hinode, fields_word hpath]
  simp only [Bool.true_eq_false, if_false, splitTwo_append _ _ hdash, Option.map_some,
    GoNumber.parseUintValue, hlo, hhi, hfo]

/-! ### The pid of a name -/

inductive LookupError where
  | readDir (err : Bytes)
  | noMatch (sub : Bytes)
  deriving DecidableEq

/-- The body of the loop over the entries of `/proc`: the pid, if the entry is a
process whose command line can be read and contains `sub`. -/
def matchEntry (sub : Bytes) (cmdline : Int → Option Bytes) (name : Bytes) : Option Int :=
  match GoNumber.atoi name with
  | none => none
  | some pid =>
    match cmdline pid with
    | none => none
    | some cmd => if contains cmd sub then some pid else none

/-- `resolvePidByName`, given what listing `/proc` returned and the command lines. -/
def resolvePidByName (sub : Bytes) (ents : Except Bytes (List Bytes))
    (cmdline : Int → Option Bytes) : Except LookupError Int :=
  match ents with
  | .error e => .error (.readDir e)
  | .ok names =>
    match names.findSome? (matchEntry sub cmdline) with
    | some pid => .ok pid
    | none => .error (.noMatch sub)

end JniProbe
