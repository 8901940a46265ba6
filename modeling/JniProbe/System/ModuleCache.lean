import JniProbe.Lib.Runs
import JniProbe.Loader.Modules

/-!
The cache of the mapped modules. A goroutine reads the maps every two seconds
and stores what it read; the event loop asks the cache for the module of an
address and, when it finds none in a stale cache, reads the maps itself. The
goroutine reads outside of the lock, the event loop inside of it, and the target
maps and unmaps modules all the time. Times are in nanoseconds.
-/

namespace JniProbe

open GoText

/-- `300*time.Millisecond`. -/
def staleAfter : Nat := 300 * 1000000

/-- `modCache`, but for the pid, which never changes. -/
structure ModCache where
  mods : ModuleMap
  last : Nat

/-- What `loadModules` returned and when the maps were read. -/
structure ModSnapshot where
  mods : ModuleMap
  readAt : Nat

/-- Where the event loop stands: outside of `of`, between its two critical
sections, or in the second one with the maps read. -/
inductive Asking where
  | idle
  | missed (addr : UInt64) (asked : Nat)
  | loaded (addr : UInt64) (asked : Nat) (snap : ModSnapshot)

/-- What a call of `of` returned, and when it began. -/
structure ModAnswer where
  addr : UInt64
  asked : Nat
  name : Bytes

/-- `readAt` tells when the maps in the cache were read and `misses` how often
the event loop has stored; both are for the statements only. -/
structure ModWorld where
  now : Nat
  text : Option Bytes
  cache : ModCache
  readAt : Nat
  refresh : Option ModSnapshot
  asking : Asking
  answers : List ModAnswer
  misses : Nat

/-- The clock, the target, the goroutine around `reload`, and `of`. -/
inductive ModMove where
  | wait (ns : Nat)
  | remap (text : Option Bytes)
  | reloadRead
  | reloadStore
  | ask (addr : UInt64)
  | askRead
  | askStore

namespace ModWorld

/-- After the first `reload`, which nothing runs beside. -/
def start (now : Nat) (text : Option Bytes) : ModWorld where
  now := now
  text := text
  cache := ⟨loadModules text, now⟩
  readAt := now
  refresh := none
  asking := .idle
  answers := []
  misses := 0

def snapshot (w : ModWorld) : ModSnapshot := ⟨loadModules w.text, w.now⟩

def store (w : ModWorld) (snap : ModSnapshot) : ModWorld :=
  { w with cache := ⟨snap.mods, w.now⟩, readAt := snap.readAt }

/-- The event loop is inside its second critical section. -/
def locked (w : ModWorld) : Bool :=
  match w.asking with
  | .loaded .. => true
  | _ => false

def answer (w : ModWorld) (addr : UInt64) (asked : Nat) (name : Bytes) : ModWorld :=
  { w with answers := w.answers ++ [⟨addr, asked, name⟩] }

def step (w : ModWorld) : ModMove → ModWorld
  | .wait ns => { w with now := w.now + ns }
  | .remap text => { w with text := text }
  | .reloadRead =>
    match w.refresh with
    | none => { w with refresh := some w.snapshot }
    | some _ => w
  | .reloadStore =>
    match w.refresh with
    | none => w
    | some snap => if w.locked then w else { w.store snap with refresh := none }
  | .ask addr =>
    match w.asking with
    | .idle =>
      let name := moduleOf w.cache.mods.ranges addr
      let stale : Bool := staleAfter < w.now - w.cache.last
      if name = [] ∧ stale then { w with asking := .missed addr w.now }
      else w.answer addr w.now name
    | _ => w
  | .askRead =>
    match w.asking with
    | .missed addr asked => { w with asking := .loaded addr asked w.snapshot }
    | _ => w
  | .askStore =>
    match w.asking with
    | .loaded addr asked snap =>
      { (w.store snap).answer addr asked (moduleOf snap.mods.ranges addr) with
        asking := .idle
        misses := w.misses + 1 }
    | _ => w

def run (w : ModWorld) (moves : List ModMove) : ModWorld := Runs.run step w moves

/-! ### How often the event loop reads the maps -/

/-- The loads of the event loop so far, and the one it may be about to make,
lie more than the staleness bound apart. -/
structure Paced (begun : Nat) (w : ModWorld) : Prop where
  last : begun + (staleAfter + 1) * w.misses ≤ w.cache.last
  past : w.cache.last ≤ w.now
  missed : ∀ addr asked, w.asking = .missed addr asked →
    begun + (staleAfter + 1) * (w.misses + 1) ≤ asked ∧ asked ≤ w.now
  loaded : ∀ addr asked snap, w.asking = .loaded addr asked snap →
    begun + (staleAfter + 1) * (w.misses + 1) ≤ asked ∧ asked ≤ w.now

theorem paced_start (now : Nat) (text : Option Bytes) : Paced now (start now text) where
  last := Nat.le_refl _
  past := Nat.le_refl _
  missed _ _ h := by cases h
  loaded _ _ _ h := by cases h

theorem Paced.step {begun : Nat} {w : ModWorld} (h : Paced begun w) (mv : ModMove) :
    Paced begun (w.step mv) := by
  have hpast := h.past
  cases mv with
  | wait ns =>
      refine ⟨h.last, Nat.le_add_right_of_le hpast, ?_, ?_⟩
      · intro addr asked hasking
        obtain ⟨hfar, hle⟩ := h.missed addr asked hasking
        exact ⟨hfar, Nat.le_add_right_of_le hle⟩
      · intro addr asked snap hasking
        obtain ⟨hfar, hle⟩ := h.loaded addr asked snap hasking
        exact ⟨hfar, Nat.le_add_right_of_le hle⟩
  | remap text => exact ⟨h.last, hpast, h.missed, h.loaded⟩
  | reloadRead =>
      simp only [ModWorld.step]
      split
      · exact ⟨h.last, hpast, h.missed, h.loaded⟩
      · exact h
  | reloadStore =>
      simp only [ModWorld.step]
      split
      · exact h
      · split
        · exact h
        · exact ⟨h.last.trans hpast, Nat.le_refl _, h.missed, h.loaded⟩
  | ask addr =>
      simp only [ModWorld.step]
      split
      · split
        · rename_i hmiss
          have hlast := h.last
          have hstale : staleAfter < w.now - w.cache.last := by simpa using hmiss.2
          refine ⟨h.last, hpast, ?_, ?_⟩
          · rintro addr asked ⟨rfl, rfl⟩
            refine ⟨?_, Nat.le_refl _⟩
            change begun + (staleAfter + 1) * (w.misses + 1) ≤ w.now
            rw [Nat.mul_succ]
            omega
          · rintro addr asked snap ⟨⟩
        · exact ⟨h.last, hpast, h.missed, h.loaded⟩
      · exact h
  | askRead =>
      simp only [ModWorld.step]
      split
      · rename_i addr asked hasking
        refine ⟨h.last, hpast, ?_, ?_⟩
        · rintro addr asked ⟨⟩
        · rintro addr asked snap ⟨rfl, rfl, rfl⟩
          exact h.missed _ _ hasking
      · exact h
  | askStore =>
      simp only [ModWorld.step]
      split
      · rename_i addr asked snap hasking
        obtain ⟨hfar, hle⟩ := h.loaded addr asked snap hasking
        refine ⟨hfar.trans hle, Nat.le_refl _, ?_, ?_⟩
        · rintro addr asked ⟨⟩
        · rintro addr asked snap ⟨⟩
      · exact h

theorem paced_run (now : Nat) (text : Option Bytes) (moves : List ModMove) :
    Paced now ((start now text).run moves) := by
  apply Runs.invariant step (P := fun _ _ => True) (fun w mv h _ => h.step mv)
    (paced_start now text)
  rw [Runs.along_iff_prefix]
  exact fun _ _ _ => trivial

end ModWorld

end JniProbe
