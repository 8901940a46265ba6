import JniProbe.Lib.GoNumber
import JniProbe.Lib.GoSplit
import JniProbe.Loader.Trace

/-!
The mapped modules of the target, for `--from` and for the frames of a call
stack: the ranges in the order of the maps, and one load bias for each base name.
-/

namespace JniProbe

open GoText GoFormat

structure ModuleRange where
  lo : UInt64
  hi : UInt64
  name : Bytes

/-- The part of a path behind its last slash. -/
def baseName (path : Bytes) : Bytes :=
  match lastIndexByte path 47 with
  | some i => path.drop (i + 1)
  | none => path

/-- The range of a line with a path, and the file offset it is mapped from. -/
def moduleLine (ln : Bytes) : Option (ModuleRange × UInt64) :=
  match fields ln with
  | range :: _ :: off :: _ :: _ :: path :: _ =>
    (splitTwo 45 range).map (fun rng =>
      (⟨GoNumber.parseUintValue rng.1 16, GoNumber.parseUintValue rng.2 16, baseName path⟩,
        GoNumber.parseUintValue off 16))
  | _ => none

/-- What `loadModules` returns. -/
structure ModuleMap where
  ranges : List ModuleRange
  bias : Bytes → Option UInt64

namespace ModuleMap

def empty : ModuleMap := ⟨[], fun _ => none⟩

/-- The body of the loop: the first mapping from offset 0 decides the bias of a name. -/
def add (m : ModuleMap) (ln : Bytes) : ModuleMap :=
  match moduleLine ln with
  | none => m
  | some (range, fo) =>
    { ranges := m.ranges ++ [range]
      bias :=
        if fo = 0 then
          if (m.bias range.name).isSome then m.bias
          else Function.update m.bias range.name (some range.lo)
        else m.bias }

end ModuleMap

/-- `loadModules`, given what reading the maps returned. -/
def loadModules (data : Option Bytes) : ModuleMap :=
  match data with
  | none => ModuleMap.empty
  | some text => (split 10 text).foldl ModuleMap.add ModuleMap.empty

def moduleOf (mods : List ModuleRange) (addr : UInt64) : Bytes :=
  match mods.find? (fun m => m.lo ≤ addr && addr < m.hi) with
  | some m => m.name
  | none => []

/-- The module name and its load bias for an address; a name without a bias has 0. -/
def ModuleMap.lookup (m : ModuleMap) (addr : UInt64) : Bytes × UInt64 :=
  let name := moduleOf m.ranges addr
  if name = [] then ([], 0) else (name, (m.bias name).getD 0)

/-! ### The frames of a call stack -/

/-- The line of one frame. -/
def frameLine (m : ModuleMap) (ind : Bytes) (idx : Nat) (a : UInt64) : Bytes :=
  let (nm, b) := m.lookup a
  if nm ≠ [] then
    ind ++ str "   #" ++ digits 10 idx ++ str " " ++ nm ++ str "+" ++ hex (a - b)
  else ind ++ str "   #" ++ digits 10 idx ++ str " " ++ hex a

/-- The addresses that are printed: those before the first zero, with the return
address of the call behind the innermost one. -/
def stackFrames (buf : List UInt64) (lr : UInt64) : List UInt64 :=
  match buf.takeWhile (· ≠ 0) with
  | [] => []
  | a :: rest => if lr ≠ 0 then a :: lr :: rest else a :: rest

/-- `printStack`, given the stack map of the probe. -/
def printStack (cfg : Config) (m : ModuleMap) (stackMap : UInt32 → Option (Vector UInt64 32))
    (ind : Bytes) (id : Int32) (lr : UInt64) : List Bytes :=
  if !cfg.stack || cfg.count || id < 0 then []
  else
    match stackMap id.toUInt32 with
    | none => []
    | some buf => (stackFrames buf.toList lr).mapIdx (frameLine m ind)

/-- The stack map holds a stack for the id, with this address as frame `idx`. -/
structure FrameAt (cfg : Config) (stackMap : UInt32 → Option (Vector UInt64 32)) (id : Int32)
    (lr : UInt64) (idx : Nat) (a : UInt64) : Prop where
  wanted : cfg.stack = true ∧ cfg.count = false
  valid : 0 ≤ id
  stored : ∃ buf, stackMap id.toUInt32 = some buf ∧ (stackFrames buf.toList lr)[idx]? = some a

/-- Every such frame is printed. -/
theorem FrameAt.printed {cfg : Config} {stackMap : UInt32 → Option (Vector UInt64 32)} {id : Int32}
    {lr : UInt64} {idx : Nat} {a : UInt64} (h : FrameAt cfg stackMap id lr idx a) (m : ModuleMap)
    (ind : Bytes) :
    (printStack cfg m stackMap ind id lr)[idx]? = some (frameLine m ind idx a) := by
  obtain ⟨⟨hstack, hcount⟩, hvalid, buf, hbuf, ha⟩ := h
  have hid : decide (id < 0) = false := decide_eq_false (Int32.not_lt.mpr hvalid)
  rw [printStack, hstack, hcount, hid, hbuf]
  simp only [Bool.not_true, Bool.or_self, Bool.false_eq_true, if_false, List.getElem?_mapIdx, ha,
    Option.map_some]

end JniProbe
