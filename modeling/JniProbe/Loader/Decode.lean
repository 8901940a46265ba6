import JniProbe.Bpf.Recon
import JniProbe.Schema

/-!
Decoding of opaque JNI ids, references and arguments into text. Everything is
a function of the name caches, of the record and of the target memory at the
time of decoding; a loader that could not open the memory has none.
-/

namespace JniProbe

open GoText GoFormat

/-! ### Reading target memory -/

/-- `ReadAt(buf, int64(addr))`: addresses from `2^63` on are negative offsets. -/
def readAt (mem : UserMemory) (a : UInt64) (n : Nat) : Bytes :=
  if a.toNat < 2 ^ 63 then mem.readRun a n else []

def u32 (mem : UserMemory) (a : UInt64) : Option UInt32 :=
  let b := readAt mem a 4
  if b.length = 4 then some (UserMemory.littleEndian b).toUInt32 else none

def cstr (mr : Option UserMemory) (addr : UInt64) : Bytes :=
  match mr with
  | none => []
  | some mem =>
    if addr = 0 then []
    else
      let run := readAt mem addr 256
      if run = [] then []
      else
        match indexByte run 0 with
        | some i => run.take i
        | none => run ++ List.replicate (256 - run.length) 0 -- the whole zeroed buffer

/-! ### Name caches -/

structure Caches where
  idName : UInt64 → Option Bytes
  idClass : UInt64 → Option UInt64
  classNames : UInt64 → Option Bytes
  nameByClass : UInt64 → Option Bytes
  objClass : UInt64 → Option UInt64
  jstr : UInt64 → Option Bytes

def newCaches : Caches where
  idName _ := none
  idClass _ := none
  classNames _ := none
  nameByClass _ := none
  objClass _ := none
  jstr _ := none

/-- A local reference is the address of a slot of the reference table, with
the kind in its low bits; the slot holds the object pointer. -/
def resolveObj (mr : Option UserMemory) (v : UInt64) : UInt64 :=
  match mr with
  | none => 0
  | some mem =>
    if v = 0 ∨ v < 0x100000 then 0
    else
      match u32 mem (v &&& ~~~7) with
      | some obj => obj.toUInt64
      | none => 0

def classNameOfRef (c : Caches) (mr : Option UserMemory) (v : UInt64) : Bytes :=
  if v = 0 then str "null"
  else
    let obj := resolveObj mr v
    if obj = 0 then
      match c.classNames v with
      | some n => n
      | none => hex v
    else
      match c.nameByClass obj with
      | some n => n -- the reference already is a class object
      | none =>
        match (mr.bind (fun mem => u32 mem obj)).bind (fun cp => c.nameByClass cp.toUInt64) with
        | some n => n
        | none => hex obj

def quote (s : Bytes) : Bytes := str "\"" ++ s ++ str "\""

def objClassName (c : Caches) (mr : Option UserMemory) (v : UInt64) : Bytes :=
  if v = 0 then str "null"
  else
    match c.jstr v with
    | some s => quote s
    | none =>
      let n := classNameOfRef c mr v
      if hasPrefix n (str "0x") then n else n ++ str "@" ++ hex v

/-! ### Values by schema type -/

def isNumeric (t : Bytes) : Bool :=
  [str "jint", str "jsize", str "jlong", str "jshort", str "jbyte", str "jchar",
    str "jboolean", str "jfloat", str "jdouble"].contains t

def fmtBoolean (v : UInt64) : Bytes := formatBool (v &&& 0xff ≠ 0)

def fmtByte (v : UInt64) : Bytes := formatInt v.toUInt8.toInt8.toInt

def fmtChar (v : UInt64) : Bytes := str "'" ++ formatRune (v &&& 0xffff).toNat ++ str "'"

def fmtShort (v : UInt64) : Bytes := formatInt v.toUInt16.toInt16.toInt

def fmtInt (v : UInt64) : Bytes := formatInt v.toUInt32.toInt32.toInt

def fmtLong (v : UInt64) : Bytes := formatInt v.toInt64.toInt

def fmtFloat (v : UInt64) : Bytes := formatFloat float32 v.toUInt32.toNat

def fmtDouble (v : UInt64) : Bytes := formatFloat float64 v.toNat

def fmtNumeric (t : Bytes) (v : UInt64) : Bytes :=
  if t = str "jboolean" then fmtBoolean v
  else if t = str "jbyte" then fmtByte v
  else if t = str "jchar" then fmtChar v
  else if t = str "jshort" then fmtShort v
  else if t = str "jint" ∨ t = str "jsize" then fmtInt v
  else if t = str "jlong" then fmtLong v
  else if t = str "jfloat" then fmtFloat v
  else if t = str "jdouble" then fmtDouble v
  else hex v

def isObjectType (typ : Bytes) : Bool :=
  hasPrefix typ (str "jobject") || hasPrefix typ (str "jarray") ||
    hasPrefix typ (str "jthrowable")

def fmtId (c : Caches) (v : UInt64) : Bytes :=
  match c.idName v with
  | some n => n
  | none => hex v

def fmtString (c : Caches) (mr : Option UserMemory) (v : UInt64) : Bytes :=
  match c.jstr v with
  | some s => quote s
  | none => classNameOfRef c mr v

def fmtCharPtr (mr : Option UserMemory) (v : UInt64) : Bytes :=
  if v = 0 then str "NULL" else quote (cstr mr v)

def fmtArg (c : Caches) (mr : Option UserMemory) (typ : Bytes) (v : UInt64) : Bytes :=
  if typ = str "JNIEnv*" ∨ typ = [] then []
  else if isNumeric typ then fmtNumeric typ v
  else if typ = str "jclass" then classNameOfRef c mr v
  else if typ = str "jmethodID" ∨ typ = str "jfieldID" then fmtId c v
  else if typ = str "jstring" then fmtString c mr v
  else if isObjectType typ then objClassName c mr v
  else if typ = str "const char*" ∨ typ = str "char*" then fmtCharPtr mr v
  else hex v

def fmtRet (c : Caches) (mr : Option UserMemory) (typ : Bytes) (v : UInt64) : Bytes :=
  if typ = str "void" ∨ typ = [] then str "void"
  else if isNumeric typ then fmtNumeric typ v
  else if typ = str "jclass" then classNameOfRef c mr v
  else if typ = str "jstring" then fmtString c mr v
  else if typ = str "jmethodID" ∨ typ = str "jfieldID" then fmtId c v
  else if isObjectType typ then objClassName c mr v
  else if typ = str "const char*" ∨ typ = str "char*" then fmtCharPtr mr v
  else hex v

/-! ### Method descriptors -/

/-- Where `for i < len(sig) && p(sig[i]) { i++ }` stops. -/
def skipWhile (sig : Bytes) (p : UInt8 → Bool) (i : Nat) : Nat :=
  i + ((sig.drop i).takeWhile p).length

/-- The index after the `;` of a class name, one past the end plus one when
there is none. -/
def classEnd (sig : Bytes) (i : Nat) : Nat := skipWhile sig (· != 59) i + 1

/-- The loop body of `parseParams`: the index after the parameter at `start`. -/
def paramEnd (sig : Bytes) (start : Nat) : Nat :=
  if sig[start]? = some 76 then classEnd sig start
  else if sig[start]? = some 91 then
    let i := skipWhile sig (· == 91) (start + 1)
    if sig[i]? = some 76 then classEnd sig i else i + 1
  else start + 1

/-- The outer loop; every iteration advances, so `len(sig)` rounds suffice. -/
def paramsLoop (sig : Bytes) : Nat → Nat → List Bytes
  | 0, _ => []
  | fuel + 1, start =>
    match sig[start]? with
    | none => []
    | some c =>
      if c = 41 then []
      else
        let i := paramEnd sig start
        let rest := paramsLoop sig fuel i
        if start < i ∧ i ≤ sig.length then (sig.take i).drop start :: rest else rest

def parseParams (sig : Bytes) : List Bytes :=
  if sig[0]? = some 40 then paramsLoop sig sig.length 1 else []

def splitNameSig (s : Bytes) : Bytes × Bytes :=
  match indexByte s 40 with
  | some i => (s.take i, s.drop i)
  | none => (s, [])

/-! ### Arguments of the call variants -/

def fmtJV (t : Bytes) (v : UInt64) (c : Caches) (mr : Option UserMemory) : Bytes :=
  if t = str "Z" then fmtBoolean v
  else if t = str "B" then fmtByte v
  else if t = str "C" then fmtChar v
  else if t = str "S" then fmtShort v
  else if t = str "I" then fmtInt v
  else if t = str "J" then fmtLong v
  else if t = str "F" then fmtFloat v
  else if t = str "D" then fmtDouble v
  else objClassName c mr v

/-- A captured word, zero outside the captured window. -/
def windowWord (words : Vector UInt64 ncapWords) (idx : Int) : UInt64 :=
  if h : 0 ≤ idx ∧ idx < 16 then words.get ⟨idx.toNat, by unfold ncapWords; omega⟩ else 0

def decodeA (e : Evt) (params : List Bytes) (c : Caches) (mr : Option UserMemory) :
    List Bytes :=
  params.mapIdx (fun i t =>
    if i ≥ ncapWords then str "?" else fmtJV t (windowWord e.cap i) c mr)

/-- The loop of `decodeV`, from the cursors `grOffs` and `stack` on. -/
def decodeVFrom (e : Evt) (c : Caches) (mr : Option UserMemory) :
    List Bytes → Int64 → UInt64 → List Bytes
  | [], _, _ => []
  | t :: rest, grOffs, stack =>
    let grBase := e.vgr - 128
    if t = str "F" ∨ t = str "D" then str "?" :: decodeVFrom e c mr rest grOffs stack
    else if e.vgr ≠ 0 ∧ grOffs < 0 then
      let idx := (e.vgr.toInt64 + grOffs - grBase.toInt64) / 8
      fmtJV t (windowWord e.cap idx.toInt) c mr :: decodeVFrom e c mr rest (grOffs + 8) stack
    else
      let idx := ((stack - e.vstk) / 8).toInt64
      fmtJV t (windowWord e.cap2 idx.toInt) c mr :: decodeVFrom e c mr rest grOffs (stack + 8)

def decodeV (e : Evt) (params : List Bytes) (c : Caches) (mr : Option UserMemory) :
    List Bytes :=
  decodeVFrom e c mr params e.vgoff e.vstk

def decodeDirect (e : Evt) (params : List Bytes) (c : Caches) (mr : Option UserMemory) :
    List Bytes :=
  params.mapIdx (fun i t =>
    if i ≥ e.ncap.toNat ∨ i ≥ 2 then str "?" else fmtJV t (windowWord e.cap i) c mr)

/-- The argument register that carries the method id of a call function. -/
def isCallMethod (n : Bytes) : Option (Fin nargs) :=
  if hasPrefix n (str "NewObject") then some 2
  else if hasPrefix n (str "Call") && contains n (str "Method") then
    if contains n (str "Nonvirtual") then some 3 else some 2
  else none

/-- The decoder of `describeCall`, chosen by the suffix of the name. -/
def decodeArgs (e : Evt) (nm : Bytes) (params : List Bytes) (c : Caches)
    (mr : Option UserMemory) : List Bytes :=
  if hasSuffix nm (str "A") then decodeA e params c mr
  else if hasSuffix nm (str "V") then decodeV e params c mr
  else decodeDirect e params c mr

/-- The class that `describeCall` prints: of the receiver or class argument,
else of the class reference stored with the method id. -/
def describeClass (e : Evt) (mid : UInt64) (c : Caches) (mr : Option UserMemory) : Bytes :=
  let cls := classNameOfRef c mr (e.a.get 1)
  let cls :=
    if hasPrefix cls (str "0x") then
      match c.idClass mid with
      | some cl => classNameOfRef c mr cl
      | none => cls
    else cls
  if cls = [] then str "?" else cls

def describeCall (e : Evt) (nm : Bytes) (c : Caches) (mr : Option UserMemory) : Bytes × Bool :=
  match isCallMethod nm with
  | none => ([], false)
  | some midIdx =>
    let mid := e.a.get midIdx
    match c.idName mid with
    | none => (nm ++ str " mid=" ++ hex mid ++ str " (?)", false)
    | some full =>
      let (mname, msig) := splitNameSig full
      let cls := describeClass e mid c mr
      let args := decodeArgs e nm (parseParams msig) c mr
      (cls ++ str "." ++ mname ++ str "(" ++ join args (str ", ") ++ str ")", true)

def validName (s : Bytes) : Bool :=
  s.length ≠ 0 && s.length ≤ 200 && s.all (fun b => 0x20 ≤ b && b ≤ 0x7e)

def validSig (s : Bytes) : Bool :=
  s.length ≠ 0 && s.length ≤ 300 &&
    match s.head? with
    | some b => (str "(L[ZBCSIJFD").contains b
    | none => false

def indentStr (d : Int32) : Bytes :=
  if d ≤ 0 then []
  else (List.replicate (if 24 < d then 24 else d.toNatClampNeg) (str "  ")).flatten

end JniProbe
