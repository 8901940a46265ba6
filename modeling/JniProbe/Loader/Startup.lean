import JniProbe.Loader.Offsets
import JniProbe.Loader.Options

/-!
The start of `runProbe`: which process is traced, where its functions lie, and
what the event loop is set up with.
-/

namespace JniProbe

open GoText GoFormat

/-- What is read of the system before a probe is attached. The maps of the
target are read three times, and may change in between. -/
structure StartReads where
  procs : Except Bytes (List Bytes)
  cmdline : Int → Option Bytes
  scanMaps : Int → Except Bytes Bytes
  mem : Int → Except Bytes UserMemory
  dataMaps : Int → Except Bytes Bytes
  startMaps : Int → Except Bytes Bytes
  file : Bytes → Option Bytes
  visit : GoMap Bytes Bytes → List (Bytes × Bytes)

inductive StartError where
  | lookup (e : LookupError)
  | usage
  | offsetsFile (path : Bytes)
  | tooFew (n : Nat)
  | base (message : Bytes)
  | regex

/-- The status the process ends with; a panic of `MustCompile` is 2 as well. -/
def StartError.status : StartError → Nat
  | usage | regex => 2
  | _ => 1

def defaultOffsets : Bytes := str "/data/local/tmp/jni_offsets.json"

/-- What the rest of `runProbe` works with. -/
structure Start where
  filters : Filters
  offsets : Offsets
  base : UInt64

def startPid (c : Options) (r : StartReads) : Except StartError Int :=
  if c.pid = 0 ∧ c.name ≠ [] then
    match resolvePidByName c.name r.procs r.cmdline with
    | .error e => .error (.lookup e)
    | .ok pid => if pid = 0 then .error .usage else .ok pid
  else if c.pid = 0 then .error .usage
  else .ok c.pid.toInt

/-- `offsetsFromScan` with the reads before the search. -/
def scanOffsets (fuel : Nat) (pid : Int) (r : StartReads) : Option (Except Bytes Offsets) :=
  match libartBase pid (r.scanMaps pid) with
  | .error e => some (.error e)
  | .ok b =>
    match r.mem pid with
    | .error e => some (.error e)
    | .ok mem =>
      match libartDataRanges (r.dataMaps pid) with
      | .error e => some (.error e)
      | .ok ranges => offsetsFromScan fuel pid mem ranges b.base b.execLo b.execHi

def readOffsets (r : StartReads) (path : Bytes) : Except StartError Offsets :=
  match offsetsFromFile (r.file path) r.visit with
  | none => .error (.offsetsFile path)
  | some offsets => .ok offsets

/-- A search that fails is made up for by the file that `env` writes. -/
def startOffsets (fuel : Nat) (c : Options) (pid : Int) (r : StartReads) :
    Option (Except StartError Offsets) :=
  if c.offsets = [] ∨ c.offsets = str "auto" then
    (scanOffsets fuel pid r).map (fun found =>
      match found with
      | .ok offsets => .ok offsets
      | .error _ => readOffsets r defaultOffsets)
  else some (readOffsets r c.offsets)

/-- What follows once offsets have been found. -/
def startWith (compile : Bytes → Option (Bytes → Bool)) (c : Options) (pid : Int) (r : StartReads)
    (offsets : Offsets) : Except StartError Start :=
  if offsets.len < 100 then .error (.tooFew offsets.len)
  else
    match libartBase pid (r.startMaps pid) with
    | .error e => .error (.base e)
    | .ok b =>
      match newFilters compile c.filterOptions with
      | none => .error .regex
      | some filters => .ok ⟨filters, offsets, b.base⟩

/-- `runProbe` up to the first probe; no result stands for a search that has not
ended. -/
def startProbe (compile : Bytes → Option (Bytes → Bool)) (fuel : Nat) (c : Options)
    (r : StartReads) : Option (Except StartError Start) :=
  match startPid c r with
  | .error e => some (.error e)
  | .ok pid => (startOffsets fuel c pid r).map (fun found => found.bind (startWith compile c pid r))

/-- The session that is set up, with the offsets in any order. -/
structure Start.Opens (st : Start) (c : Options) (S : Session) : Prop where
  cfg : S.cfg = c.config
  filters : S.filters = st.filters
  offsets : S.offsets.toFinmap = st.offsets
  base : S.base = st.base

end JniProbe
