import JniProbe.Loader.Decode
import JniProbe.Loader.Filters
import Mathlib.Logic.Function.Basic

/-!
The event loop of `runProbe`: the slots it tracks, the maps it hands to the
BPF programs, and what one ring record does to the stored frames and to the
name caches. Every record emits at most one line, so a step returns the new
tracking state and that line; `emit` then counts or prints it.
-/

namespace JniProbe

open GoText GoFormat

structure Config where
  noReturns : Bool
  maxDepth : Int64
  tid : Int64
  verbose : Bool
  count : Bool
  jsonOut : Bool
  stack : Bool

abbrev OffsetTable := AList (fun _ : UInt64 => Nat)

/-- What `runProbe` knows once offsets, base and filters are set up. The order
of `offsets.entries` is the arbitrary order in which Go visits the map. -/
structure Session where
  cfg : Config
  filters : Filters
  offsets : OffsetTable
  base : UInt64

namespace Session

/-- `offsets[off]`, the slot whose function lies at a file offset. -/
def slotAt (S : Session) (off : UInt64) : Option Nat := S.offsets.lookup off

def callSet (slot : Nat) : Bool := (isCallMethod (slotName slot)).isSome

/-- Slots whose returns are captured. -/
def retSet (S : Session) (slot : Nat) : Bool :=
  alwaysWatch (slotName slot) ||
    (!S.cfg.noReturns && slotRet slot ≠ str "void" && S.filters.matchSlot slot)

def retOffsets (S : Session) : List UInt64 :=
  S.offsets.entries.filterMap (fun p => if S.retSet p.2 then some p.1 else none)

/-- How the argument area of a call function is laid out, and the register
that points at it. -/
def argPuts (S : Session) : List (UInt64 × UInt8 × UInt8) :=
  S.offsets.entries.filterMap (fun p =>
    let nm := slotName p.2
    (isCallMethod nm).map (fun midIdx =>
      let kind : UInt8 :=
        if hasSuffix nm (str "A") then 1 else if hasSuffix nm (str "V") then 2 else 3
      (p.1, kind, (midIdx.val + 1).toUInt8)))

def maps (S : Session) : ProbeMaps where
  base := S.base
  wantStack := if S.cfg.stack then 1 else 0
  argkind := BoundedMap.fill (S.argPuts.map (fun p => (p.1, p.2.1)))
  argidx := BoundedMap.fill (S.argPuts.map (fun p => (p.1, p.2.2)))
  hasret := BoundedMap.fill (S.retOffsets.map (fun off => (off, 1)))

end Session

/-! ### Frames, caches and output -/

structure Frame where
  slot : Nat
  ts : UInt64
  call : Bytes
  caller : Bytes
  a1 : UInt64
  a2 : UInt64
  a3 : UInt64

abbrev Key := Int32 × Int32

structure Tracker where
  frames : Key → Option Frame
  caches : Caches

def Tracker.start : Tracker := ⟨fun _ => none, newCaches⟩

inductive Printed where
  | plain (line : Bytes)
  | json (line : Bytes)

structure Output where
  counts : List (Bytes × Nat)
  stdout : List Printed

structure Loader where
  tracker : Tracker
  output : Output

/-- What surrounds the processing of one record: the target memory at that
moment (`none` when it could not be opened), the module map and the filters. -/
structure Env where
  mr : Option UserMemory
  moduleOf : UInt64 → Bytes
  filters : Filters

def bump : List (Bytes × Nat) → Bytes → List (Bytes × Nat)
  | [], line => [(line, 1)]
  | (k, v) :: rest, line => if k = line then (k, v + 1) :: rest else (k, v) :: bump rest line

def emit (cfg : Config) (line : Bytes) (out : Output) : Output :=
  if cfg.count then { out with counts := bump out.counts line }
  else if cfg.jsonOut then { out with stdout := out.stdout ++ [.json line] }
  else { out with stdout := out.stdout ++ [.plain line] }

def splitClassMethod (call : Bytes) : Bytes × Bytes :=
  match lastIndexByte call 46 with
  | some i =>
    let rest := call.drop (i + 1)
    match indexByte rest 40 with
    | some j => (call.take i, rest.take j)
    | none => (call.take i, rest)
  | none => ([], call)

def renderGeneric (e : Evt) (slot : Nat) (c : Caches) (mr : Option UserMemory) : Bytes :=
  let types := slotArgs slot
  if types = [] then
    str "a1=" ++ hex (e.a.get 1) ++ str " a2=" ++ hex (e.a.get 2) ++ str " a3=" ++ hex (e.a.get 3)
  else
    let rendered := (types.zip e.a.toList).tail.map (fun p => fmtArg c mr p.1 p.2)
    join (rendered.filter (· ≠ [])) (str ", ")

def genericLine (e : Evt) (slot : Nat) (c : Caches) (mr : Option UserMemory) : Bytes :=
  slotName slot ++ str "(" ++ renderGeneric e slot c mr ++ str ")"

/-! ### Return records -/

/-- The cases of the `switch` on the name of the returning function. -/
inductive ReturnCase where
  | getId
  | findClass
  | getObjectClass
  | newObject
  | getStringUTFChars
  | newStringUTF
  | other
  deriving DecidableEq

def returnCase (nm : Bytes) : ReturnCase :=
  if nm = str "GetMethodID" ∨ nm = str "GetStaticMethodID" ∨ nm = str "GetFieldID" ∨
      nm = str "GetStaticFieldID" then .getId
  else if nm = str "FindClass" then .findClass
  else if nm = str "GetObjectClass" then .getObjectClass
  else if nm = str "NewObject" ∨ nm = str "NewObjectV" ∨ nm = str "NewObjectA" ∨
      nm = str "AllocObject" then .newObject
  else if nm = str "GetStringUTFChars" then .getStringUTFChars
  else if nm = str "NewStringUTF" then .newStringUTF
  else .other

def learnId (mr : Option UserMemory) (fr : Frame) (rc : UInt64) (cs : Caches) : Caches :=
  let nm := cstr mr fr.a2
  let sg := cstr mr fr.a3
  let idName :=
    if validName nm && validSig sg then Function.update cs.idName rc (some (nm ++ sg))
    else cs.idName
  { cs with idName := idName, idClass := Function.update cs.idClass rc (some fr.a1) }

def learnFindClass (mr : Option UserMemory) (fr : Frame) (rc : UInt64) (cs : Caches) :
    Caches :=
  let nm := cstr mr fr.a1
  if validName nm then
    let dotted := replaceByte nm 47 46
    let obj := resolveObj mr rc
    { cs with
      classNames := Function.update cs.classNames rc (some dotted)
      nameByClass :=
        if obj ≠ 0 then Function.update cs.nameByClass obj (some dotted) else cs.nameByClass }
  else cs

/-- `objClass[object] = class` for the references `o` and `cl`, if both resolve. -/
def learnObjClass (mr : Option UserMemory) (o cl : UInt64) (cs : Caches) : Caches :=
  let op := resolveObj mr o
  let cp := resolveObj mr cl
  if op ≠ 0 ∧ cp ≠ 0 then { cs with objClass := Function.update cs.objClass op (some cp) }
  else cs

/-- The bodies of the cases of the `switch`. -/
def learnCase (nm : ReturnCase) (mr : Option UserMemory) (fr : Frame) (rc : UInt64)
    (cs : Caches) : Caches :=
  match nm with
  | .getId => learnId mr fr rc cs
  | .findClass => learnFindClass mr fr rc cs
  | .getObjectClass => learnObjClass mr fr.a1 rc cs
  | .newObject => learnObjClass mr rc fr.a1 cs
  | .getStringUTFChars => { cs with jstr := Function.update cs.jstr fr.a1 (some (cstr mr rc)) }
  | .newStringUTF => { cs with jstr := Function.update cs.jstr rc (some (cstr mr fr.a1)) }
  | .other => cs

/-- The cache updates of `handleReturn`; every case starts with the same test
of the reader and the returned value. -/
def learn (mr : Option UserMemory) (fr : Frame) (rc : UInt64) (cs : Caches) : Caches :=
  if mr.isSome && rc ≠ 0 then learnCase (returnCase (slotName fr.slot)) mr fr rc cs else cs

/-- `c.maxDepth > 0 && e.Depth > int32(c.maxDepth)` -/
def tooDeep (cfg : Config) (depth : Int32) : Bool :=
  0 < cfg.maxDepth && cfg.maxDepth.toInt32 < depth

/-- The line that `handleReturn` passes to `emit`, with the caches it has
already updated. -/
def returnLine (S : Session) (env : Env) (e : Evt) (fr : Frame) (cs : Caches) : Option Bytes :=
  if env.filters.matchSlot fr.slot && fr.call ≠ [] then
    if tooDeep S.cfg e.depth then none
    else
      let ret := fmtRet cs env.mr (slotRet fr.slot) e.rc
      let (cls, meth) := splitClassMethod fr.call
      let line := indentStr e.depth ++ str "<- " ++ fr.call ++ str " = " ++ ret ++ str "  (" ++
        millis (e.ts - fr.ts) ++ str " ms)"
      if env.filters.matchLine cls meth (fr.call ++ ret) fr.caller then some line else none
  else none

def handleReturn (S : Session) (env : Env) (t : Tracker) (e : Evt) :
    Tracker × Option Bytes :=
  if e.depth < 0 then (t, none)
  else
    let key : Key := (e.tid.toInt32, e.depth)
    match t.frames key with
    | none => (t, none)
    | some fr =>
      let cs := learn env.mr fr e.rc t.caches
      (⟨Function.update t.frames key none, cs⟩, returnLine S env e fr cs)

/-! ### Entry records -/

/-- The frame stored when a tracked call is entered. -/
def newFrame (env : Env) (e : Evt) (slot : Nat) (cs : Caches) : Frame where
  slot := slot
  ts := e.ts
  call := if Session.callSet slot then [] else genericLine e slot cs env.mr
  caller := env.moduleOf e.caller
  a1 := e.a.get 1
  a2 := e.a.get 2
  a3 := e.a.get 3

/-- Completing the text of a stored frame. -/
def setCall (frames : Key → Option Frame) (key : Key) (call : Bytes) : Key → Option Frame :=
  match frames key with
  | some fr => Function.update frames key (some { fr with call := call })
  | none => frames

def verboseTag (S : Session) (env : Env) (e : Evt) : Bytes :=
  if S.cfg.verbose then
    str "  [caller=" ++ hex e.caller ++ str " " ++ env.moduleOf e.caller ++ str "]"
  else []

def handleEntry (S : Session) (env : Env) (t : Tracker) (e : Evt) :
    Tracker × Option Bytes :=
  match S.slotAt (e.ip - S.base) with
  | none => (t, none)
  | some slot =>
    let nm := slotName slot
    let caller := env.moduleOf e.caller
    let key : Key := (e.tid.toInt32, e.depth)
    let frames :=
      if S.retSet slot ∧ 0 ≤ e.depth then
        Function.update t.frames key (some (newFrame env e slot t.caches))
      else t.frames
    if !env.filters.matchSlot slot then (⟨frames, t.caches⟩, none)
    else if tooDeep S.cfg e.depth then (⟨frames, t.caches⟩, none)
    else
      match isCallMethod nm with
      | some _ =>
        let (call, known) := describeCall e nm t.caches env.mr
        let frames := setCall frames key call
        let (cls, meth) := splitClassMethod call
        let line := indentStr e.depth ++ str "-> " ++ call ++ verboseTag S env e
        if (known || S.cfg.verbose) && env.filters.matchLine cls meth call caller then
          (⟨frames, t.caches⟩, some line)
        else (⟨frames, t.caches⟩, none)
      | none =>
        let text := genericLine e slot t.caches env.mr
        let line := indentStr e.depth ++ str "-> " ++ text
        if env.filters.matchLine [] nm text caller then (⟨frames, t.caches⟩, some line)
        else (⟨frames, t.caches⟩, none)

/-! ### The loop body -/

/-- `--tid` keeps the records of one thread only. -/
def watched (cfg : Config) (tid : UInt32) : Bool :=
  cfg.tid = 0 || tid.toUInt64.toInt64 = cfg.tid

def handleEvent (S : Session) (env : Env) (t : Tracker) (e : Evt) :
    Tracker × Option Bytes :=
  if !watched S.cfg e.tid then (t, none)
  else if e.kind = 1 then handleReturn S env t e
  else handleEntry S env t e

def Loader.step (S : Session) (env : Env) (ld : Loader) (e : Evt) : Loader :=
  let (t, line) := handleEvent S env ld.tracker e
  match line with
  | none => ⟨t, ld.output⟩
  | some line => ⟨t, emit S.cfg line ld.output⟩

end JniProbe
