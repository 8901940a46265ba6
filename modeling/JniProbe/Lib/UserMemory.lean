import JniProbe.Lib.GoText

/-!
The memory of another process as an observer sees it: some bytes can be read,
the others fault. Reads stop at the first unreadable byte; words are little
endian.
-/

abbrev UserMemory := UInt64 → Option UInt8

namespace UserMemory

/-- The bytes obtained by a read of at most `n` bytes from `a` on. -/
def readRun (mem : UserMemory) : UInt64 → Nat → List UInt8
  | _, 0 => []
  | a, n + 1 =>
      match mem a with
      | none => []
      | some b => b :: readRun mem (a + 1) n

def littleEndian (bytes : List UInt8) : Nat :=
  bytes.foldr (fun b acc => b.toNat + 256 * acc) 0

/-- The word of `n` bytes at `a`, if all of them are readable. -/
def word (mem : UserMemory) (a : UInt64) (n : Nat) : Option Nat :=
  let bytes := mem.readRun a n
  if bytes.length = n then some (littleEndian bytes) else none

theorem length_readRun_le (mem : UserMemory) (a : UInt64) (n : Nat) :
    (mem.readRun a n).length ≤ n := by
  induction n generalizing a with
  | zero => simp [readRun]
  | succ n ih =>
      simp only [readRun]
      split
      · simp
      · simpa using ih (a + 1)

theorem take_readRun (mem : UserMemory) (a : UInt64) {k n : Nat} (h : k ≤ n) :
    (mem.readRun a n).take k = mem.readRun a k := by
  induction k generalizing a n with
  | zero => simp [readRun]
  | succ k ih =>
      obtain ⟨n, rfl⟩ : ∃ n', n = n' + 1 := ⟨n - 1, by omega⟩
      simp only [readRun]
      cases mem a with
      | none => rfl
      | some b => rw [List.take_succ_cons, ih (a + 1) (by omega)]

/-- A zero-terminated string at a user-space address. -/
structure HoldsString (mem : UserMemory) (a : UInt64) (s : List UInt8) : Prop where
  nonnull : a ≠ 0
  user : a.toNat < 2 ^ 63
  bytes : mem.readRun a (s.length + 1) = s ++ [0]
  nonzero : 0 ∉ s

/-- A longer read sees the string, its end, and whatever follows. -/
theorem HoldsString.readRun_eq {mem : UserMemory} {a : UInt64} {s : List UInt8}
    (h : mem.HoldsString a s) {n : Nat} (hn : s.length < n) :
    ∃ rest, mem.readRun a n = s ++ 0 :: rest := by
  have htake := take_readRun mem a (show s.length + 1 ≤ n by omega)
  refine ⟨(mem.readRun a n).drop (s.length + 1), ?_⟩
  rw [← List.take_append_drop (s.length + 1) (mem.readRun a n), htake, h.bytes]
  simp

/-! ### Memories given by their words -/

/-- The bytes of the low `n` bytes of a number, lowest first. -/
def bytesOf : Nat → Nat → List UInt8
  | 0, _ => []
  | n + 1, w => UInt8.ofNat w :: bytesOf n (w / 256)

theorem length_bytesOf (n w : Nat) : (bytesOf n w).length = n := by
  induction n generalizing w with
  | zero => rfl
  | succ n ih => rw [bytesOf, List.length_cons, ih]

theorem littleEndian_bytesOf (n w : Nat) : littleEndian (bytesOf n w) = w % 256 ^ n := by
  induction n generalizing w with
  | zero => simp [bytesOf, littleEndian, Nat.mod_one]
  | succ n ih =>
      have hrest : littleEndian (bytesOf (n + 1) w) =
          (UInt8.ofNat w).toNat + 256 * littleEndian (bytesOf n (w / 256)) := rfl
      rw [hrest, ih, UInt8.toNat_ofNat', Nat.pow_succ 256 n, Nat.mul_comm (256 ^ n) 256,
        Nat.mod_mul]

theorem littleEndian_lt (bytes : List UInt8) : littleEndian bytes < 256 ^ bytes.length := by
  induction bytes with
  | nil => exact Nat.one_pos
  | cons b rest ih =>
      have hbyte := b.toNat_lt
      have hcons : littleEndian (b :: rest) = b.toNat + 256 * littleEndian rest := rfl
      rw [hcons, List.length_cons, Nat.pow_succ]
      omega

/-- The memory in which every aligned word is the one that `f` gives for its address. -/
def ofWords (f : UInt64 → UInt64) : UserMemory := fun a =>
  some (UInt8.ofNat ((f (a - a % 8)).toNat / 256 ^ (a % 8).toNat))

theorem length_readRun_ofWords (f : UInt64 → UInt64) (a : UInt64) (n : Nat) :
    ((ofWords f).readRun a n).length = n := by
  induction n generalizing a with
  | zero => rfl
  | succ n ih => simp [readRun, ofWords, ih]

theorem ofWords_byte (f : UInt64 → UInt64) {a : UInt64} (h : a % 8 = 0) {k : Nat} (hk : k < 8) :
    ofWords f (a + UInt64.ofNat k) = some (UInt8.ofNat ((f a).toNat / 256 ^ k)) := by
  have hmod : a.toNat % 8 = 0 := by
    have heq := congrArg UInt64.toNat h
    simpa using heq
  have hlt := a.toNat_lt
  have hsum : (a + UInt64.ofNat k).toNat = a.toNat + k := by
    rw [UInt64.toNat_add, UInt64.toNat_ofNat']
    omega
  have hrem : ((a + UInt64.ofNat k) % 8).toNat = k := by
    rw [UInt64.toNat_mod, hsum]
    have height : (8 : UInt64).toNat = 8 := rfl
    rw [height]
    omega
  have hbase : a + UInt64.ofNat k - (a + UInt64.ofNat k) % 8 = a := by
    have hk' : (a + UInt64.ofNat k) % 8 = UInt64.ofNat k := by
      apply UInt64.toNat_inj.mp
      rw [hrem, UInt64.toNat_ofNat']
      omega
    rw [hk', UInt64.add_sub_cancel]
  simp only [ofWords, hbase, hrem]

theorem readRun_ofWords (f : UInt64 → UInt64) {a : UInt64} (h : a % 8 = 0) (k n : Nat)
    (hk : k + n ≤ 8) : (ofWords f).readRun (a + UInt64.ofNat k) n =
      bytesOf n ((f a).toNat / 256 ^ k) := by
  induction n generalizing k with
  | zero => rfl
  | succ n ih =>
      have hnext : a + UInt64.ofNat k + 1 = a + UInt64.ofNat (k + 1) := by
        rw [UInt64.add_assoc, UInt64.ofNat_add]
        rfl
      have hdiv : (f a).toNat / 256 ^ k / 256 = (f a).toNat / 256 ^ (k + 1) := by
        rw [Nat.div_div_eq_div_mul, Nat.pow_succ]
      simp only [readRun, ofWords_byte f h (show k < 8 by omega), hnext, bytesOf]
      rw [ih (k + 1) (by omega), hdiv]

/-- An aligned read of a word finds the word. -/
theorem word_ofWords (f : UInt64 → UInt64) {a : UInt64} (h : a % 8 = 0) :
    (ofWords f).word a 8 = some (f a).toNat := by
  have hrun := readRun_ofWords f h 0 8 (by omega)
  have hzero : a + UInt64.ofNat 0 = a := UInt64.add_zero a
  rw [hzero, Nat.pow_zero, Nat.div_one] at hrun
  have hlt := (f a).toNat_lt
  simp only [word, length_readRun_ofWords, if_true]
  rw [hrun, littleEndian_bytesOf, Nat.mod_eq_of_lt (by omega)]

/-- Every word of such a memory can be read. -/
theorem exists_word_ofWords (f : UInt64 → UInt64) (a : UInt64) :
    ∃ w : UInt64, (ofWords f).word a 8 = some w.toNat := by
  have hlen := length_readRun_ofWords f a 8
  have hlt := littleEndian_lt ((ofWords f).readRun a 8)
  rw [hlen] at hlt
  refine ⟨(littleEndian ((ofWords f).readRun a 8)).toUInt64, ?_⟩
  simp only [word, hlen, if_true, Nat.toUInt64_eq, UInt64.toNat_ofNat']
  rw [Nat.mod_eq_of_lt (by omega)]

end UserMemory
