import JniProbe.Lib.UserMemory

/-!
Records of integers and integer arrays, laid out in memory by the C rules of a
64-bit little-endian target and read by Go's `encoding/binary`. A C compiler
puts padding in front of a field that its offset does not align, and behind the
last one; `binary.Read` knows no alignment and takes the fields one right after
the other. The two agree where the C layout leaves no gap.
-/

namespace CLayout

open GoText

/-! ### Scalars -/

inductive Scalar
  | u32
  | s32
  | u64
  | s64
  deriving DecidableEq

namespace Scalar

abbrev Value : Scalar → Type
  | u32 => UInt32
  | s32 => Int32
  | u64 => UInt64
  | s64 => Int64

def size : Scalar → Nat
  | u32 => 4
  | s32 => 4
  | u64 => 8
  | s64 => 8

/-- The value as an unsigned number; signed values are in two's complement. -/
def bits : (s : Scalar) → s.Value → Nat
  | u32, v => UInt32.toNat v
  | s32, v => (Int32.toUInt32 v).toNat
  | u64, v => UInt64.toNat v
  | s64, v => (Int64.toUInt64 v).toNat

def ofBits : (s : Scalar) → Nat → s.Value
  | u32, n => n.toUInt32
  | s32, n => n.toUInt32.toInt32
  | u64, n => n.toUInt64
  | s64, n => n.toUInt64.toInt64

def bytes (s : Scalar) (v : s.Value) : Bytes := UserMemory.bytesOf s.size (s.bits v)

def read (s : Scalar) (b : Bytes) : s.Value := s.ofBits (UserMemory.littleEndian b)

theorem ofBits_bits (s : Scalar) (v : s.Value) : s.ofBits (s.bits v) = v := by
  cases s with
  | u32 => exact UInt32.ofNat_toNat
  | s32 =>
      have hbits : (Int32.toUInt32 v).toNat.toUInt32 = Int32.toUInt32 v := UInt32.ofNat_toNat
      rw [bits, ofBits, hbits]
      exact Int32.toInt32_toUInt32 v
  | u64 => exact UInt64.ofNat_toNat
  | s64 =>
      have hbits : (Int64.toUInt64 v).toNat.toUInt64 = Int64.toUInt64 v := UInt64.ofNat_toNat
      rw [bits, ofBits, hbits]
      exact Int64.toInt64_toUInt64 v

theorem bits_lt (s : Scalar) (v : s.Value) : s.bits v < 256 ^ s.size := by
  cases s with
  | u32 => exact UInt32.toNat_lt v
  | s32 => exact UInt32.toNat_lt (Int32.toUInt32 v)
  | u64 => exact UInt64.toNat_lt v
  | s64 => exact UInt64.toNat_lt (Int64.toUInt64 v)

theorem length_bytes (s : Scalar) (v : s.Value) : (s.bytes v).length = s.size :=
  UserMemory.length_bytesOf _ _

theorem read_bytes (s : Scalar) (v : s.Value) : s.read (s.bytes v) = v := by
  rw [read, bytes, UserMemory.littleEndian_bytesOf, Nat.mod_eq_of_lt (s.bits_lt v), ofBits_bits]

/-- The elements of an array, one after the other. -/
def readList (s : Scalar) : Nat → Bytes → List s.Value
  | 0, _ => []
  | n + 1, b => s.read (b.take s.size) :: s.readList n (b.drop s.size)

theorem length_readList (s : Scalar) (n : Nat) (b : Bytes) : (s.readList n b).length = n := by
  induction n generalizing b with
  | zero => rfl
  | succ n ih => rw [readList, List.length_cons, ih]

theorem length_flatMap_bytes (s : Scalar) (vs : List s.Value) :
    (vs.flatMap s.bytes).length = vs.length * s.size := by
  induction vs with
  | nil => rw [List.flatMap_nil, List.length_nil, List.length_nil, Nat.zero_mul]
  | cons v rest ih =>
      rw [List.flatMap_cons, List.length_append, ih, length_bytes, List.length_cons, Nat.succ_mul,
        Nat.add_comm]

theorem readList_bytes (s : Scalar) (vs : List s.Value) :
    s.readList vs.length (vs.flatMap s.bytes) = vs := by
  induction vs with
  | nil => rfl
  | cons v rest ih =>
      have hlen := s.length_bytes v
      rw [List.length_cons, readList, List.flatMap_cons, List.take_left' hlen,
        List.drop_left' hlen, read_bytes, ih]

end Scalar

/-! ### Fields -/

inductive CType
  | one (s : Scalar)
  | many (s : Scalar) (n : Nat)
  deriving DecidableEq

namespace CType

abbrev Value : CType → Type
  | one s => s.Value
  | many s n => Vector s.Value n

def size : CType → Nat
  | one s => s.size
  | many s n => n * s.size

/-- Scalars are aligned to their size, arrays like their elements. -/
def align : CType → Nat
  | one s => s.size
  | many s _ => s.size

def bytes : (t : CType) → t.Value → Bytes
  | one s, v => s.bytes v
  | many s _, v => v.toList.flatMap s.bytes

def read : (t : CType) → Bytes → t.Value
  | one s, b => s.read b
  | many s n, b => ⟨⟨s.readList n b⟩, s.length_readList n b⟩

theorem length_bytes (t : CType) (v : t.Value) : (t.bytes v).length = t.size := by
  cases t with
  | one s => exact s.length_bytes v
  | many s n =>
      have hlen := s.length_flatMap_bytes (Vector.toList v)
      rw [Vector.length_toList] at hlen
      exact hlen

theorem read_bytes (t : CType) (v : t.Value) : t.read (t.bytes v) = v := by
  cases t with
  | one s => exact s.read_bytes v
  | many s n =>
      have hread := s.readList_bytes (Vector.toList v)
      rw [Vector.length_toList] at hread
      apply Vector.toList_inj.mp
      exact hread

end CType

/-! ### Records -/

abbrev Record : List CType → Type
  | [] => Unit
  | t :: ts => t.Value × Record ts

/-- The padding in front of a field, from an offset on. -/
def gap (off align : Nat) : Nat := (align - off % align) % align

/-- Padding holds whatever was there. -/
def padding (pad : Nat → UInt8) (off n : Nat) : Bytes := (List.range' off n).map pad

/-- The fields in memory, from an offset on. -/
def layoutFrom (pad : Nat → UInt8) : Nat → (ts : List CType) → Record ts → Bytes
  | _, [], _ => []
  | off, t :: ts, r =>
      padding pad off (gap off t.align) ++
        (t.bytes r.1 ++ layoutFrom pad (off + gap off t.align + t.size) ts r.2)

def endFrom : Nat → List CType → Nat
  | off, [] => off
  | off, t :: ts => endFrom (off + gap off t.align + t.size) ts

/-- The alignment of the struct is that of its strictest field. -/
def structAlign (ts : List CType) : Nat := ts.foldr (fun t a => max t.align a) 1

def sizeof (ts : List CType) : Nat := endFrom 0 ts + gap (endFrom 0 ts) (structAlign ts)

def layout (pad : Nat → UInt8) (ts : List CType) (r : Record ts) : Bytes :=
  layoutFrom pad 0 ts r ++ padding pad (endFrom 0 ts) (gap (endFrom 0 ts) (structAlign ts))

theorem length_layoutFrom (pad : Nat → UInt8) (off : Nat) (ts : List CType) (r : Record ts) :
    off + (layoutFrom pad off ts r).length = endFrom off ts := by
  induction ts generalizing off with
  | nil => rfl
  | cons t ts ih =>
      rw [layoutFrom, endFrom, ← ih _ r.2, List.length_append, List.length_append, t.length_bytes,
        padding, List.length_map, List.length_range']
      omega

theorem length_layout (pad : Nat → UInt8) (ts : List CType) (r : Record ts) :
    (layout pad ts r).length = sizeof ts := by
  have hlen := length_layoutFrom pad 0 ts r
  rw [layout, sizeof, List.length_append, padding, List.length_map, List.length_range']
  omega

/-! ### Packed reading -/

def packedSize (ts : List CType) : Nat := (ts.map CType.size).sum

def readFields : (ts : List CType) → Bytes → Record ts
  | [], _ => ()
  | t :: ts, b => (t.read (b.take t.size), readFields ts (b.drop t.size))

/-- `binary.Read` of a struct: it fails on too few bytes and ignores further ones. -/
def binaryRead (ts : List CType) (b : Bytes) : Option (Record ts) :=
  if b.length < packedSize ts then none else some (readFields ts b)

/-- The layout leaves no gap between the fields. -/
def Tight : Nat → List CType → Prop
  | _, [] => True
  | off, t :: ts => gap off t.align = 0 ∧ Tight (off + t.size) ts

instance decidableTight : (off : Nat) → (ts : List CType) → Decidable (Tight off ts)
  | _, [] => inferInstanceAs (Decidable True)
  | off, t :: ts =>
      have := decidableTight (off + t.size) ts
      inferInstanceAs (Decidable (_ ∧ _))

theorem Tight.layoutFrom_cons {pad : Nat → UInt8} {off : Nat} {t : CType} {ts : List CType}
    (h : Tight off (t :: ts)) (r : Record (t :: ts)) :
    layoutFrom pad off (t :: ts) r = t.bytes r.1 ++ layoutFrom pad (off + t.size) ts r.2 := by
  rw [layoutFrom, h.1]
  rfl

theorem Tight.length_layoutFrom {pad : Nat → UInt8} {off : Nat} {ts : List CType}
    (h : Tight off ts) (r : Record ts) : (layoutFrom pad off ts r).length = packedSize ts := by
  induction ts generalizing off with
  | nil => rfl
  | cons t ts ih =>
      rw [h.layoutFrom_cons, List.length_append, t.length_bytes, ih h.2, packedSize, packedSize,
        List.map_cons, List.sum_cons]

theorem Tight.readFields_layoutFrom {pad : Nat → UInt8} {off : Nat} {ts : List CType}
    (h : Tight off ts) (r : Record ts) (rest : Bytes) :
    readFields ts (layoutFrom pad off ts r ++ rest) = r := by
  induction ts generalizing off with
  | nil => rfl
  | cons t ts ih =>
      have hlen := t.length_bytes r.1
      rw [h.layoutFrom_cons, List.append_assoc, readFields, List.take_left' hlen,
        List.drop_left' hlen, t.read_bytes, ih h.2]

/-- A record laid out without gaps is read back, whatever is in its padding. -/
theorem binaryRead_layout {ts : List CType} (h : Tight 0 ts) (pad : Nat → UInt8) (r : Record ts) :
    binaryRead ts (layout pad ts r) = some r := by
  have hlen : ¬ (layout pad ts r).length < packedSize ts := by
    rw [layout, List.length_append, h.length_layoutFrom]
    omega
  rw [binaryRead, if_neg hlen, layout, h.readFields_layoutFrom]

end CLayout
