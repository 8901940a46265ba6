import JniProbe.Lib.BoundedMap
import Mathlib.Data.List.ReduceOption
import Mathlib.Data.List.TakeWhile
import Mathlib.Logic.Function.Basic

/-!
A log whose places are reserved first and filled later, as a ring buffer with
`reserve` and `submit`. Each thread runs a body of reads and writes of its own
cell of a shared store and then fills its place; the reader takes the records in
the order of the places, up to the first that is still open. Bodies of different
threads touch different cells, so however they interleave, the log is filled as
if every body had run at once when its place was reserved.
-/

/-- Reads and writes of one cell that lead to a result. -/
inductive CellBody (ν ρ : Type) where
  | done (result : ρ)
  | read (next : Option ν → CellBody ν ρ)
  | write (v : ν) (next : CellBody ν ρ)

/-- A store with one cell for each key; a cell may be missing. -/
structure CellStore (μ κ ν : Type) where
  get : μ → κ → Option ν
  set : μ → κ → ν → μ

/-- Store states in which the writes to the cells of `keys` succeed. -/
structure CellStore.Roomy {μ κ ν : Type} (C : CellStore μ κ ν) (keys : κ → Prop) where
  room : μ → Prop
  room_set : ∀ s k v, room s → keys k → room (C.set s k v)
  get_set_self : ∀ s k v, room s → keys k → C.get (C.set s k v) k = some v
  get_set_ne : ∀ s k k' v, k' ≠ k → C.get (C.set s k v) k' = C.get s k'

namespace CellBody

variable {μ κ ν ρ : Type}

/-- The whole body at once. -/
def exec (C : CellStore μ κ ν) (k : κ) : CellBody ν ρ → μ → μ × ρ
  | done r, s => (s, r)
  | read next, s => exec C k (next (C.get s k)) s
  | write v next, s => exec C k next (C.set s k v)

def map {ρ' : Type} (f : ρ → ρ') : CellBody ν ρ → CellBody ν ρ'
  | done r => done (f r)
  | read next => read (fun v => (next v).map f)
  | write v next => write v (next.map f)

theorem exec_map {ρ' : Type} (C : CellStore μ κ ν) (k : κ) (f : ρ → ρ') (b : CellBody ν ρ)
    (s : μ) : (b.map f).exec C k s = ((b.exec C k s).1, f (b.exec C k s).2) := by
  induction b generalizing s with
  | done r => rfl
  | read next ih => exact ih _ s
  | write v next ih => exact ih _

variable {C : CellStore μ κ ν} {keys : κ → Prop} (R : C.Roomy keys)

section
include R

theorem exec_room (b : CellBody ν ρ) {s : μ} {k : κ} (hs : R.room s) (hk : keys k) :
    R.room (b.exec C k s).1 := by
  induction b generalizing s with
  | done r => exact hs
  | read next ih => exact ih _ hs
  | write v next ih => exact ih (R.room_set s k v hs hk)

/-- A body leaves the other cells alone. -/
theorem exec_get_ne (b : CellBody ν ρ) (s : μ) {k k' : κ} (hne : k' ≠ k) :
    C.get (b.exec C k s).1 k' = C.get s k' := by
  induction b generalizing s with
  | done r => rfl
  | read next ih => exact ih _ s
  | write v next ih => rw [exec, ih, R.get_set_ne s k k' v hne]

/-- What a body does depends on its own cell only. -/
theorem exec_congr (b : CellBody ν ρ) {s s' : μ} {k : κ} (hs : R.room s) (hs' : R.room s')
    (hk : keys k) (hcell : C.get s k = C.get s' k) :
    (b.exec C k s).2 = (b.exec C k s').2 ∧
      C.get (b.exec C k s).1 k = C.get (b.exec C k s').1 k := by
  induction b generalizing s s' with
  | done r => exact ⟨rfl, hcell⟩
  | read next ih =>
      rw [exec, exec, hcell]
      exact ih _ hs hs' hcell
  | write v next ih =>
      have hcell' : C.get (C.set s k v) k = C.get (C.set s' k v) k := by
        rw [R.get_set_self s k v hs hk, R.get_set_self s' k v hs' hk]
      exact ih (R.room_set s k v hs hk) (R.room_set s' k v hs' hk) hcell'

end

end CellBody

/-- The store, the bodies that are running with the places they will fill, and
the places. -/
structure ReserveLog (μ κ ν ρ : Type) where
  store : μ
  running : κ → Option (Nat × CellBody ν ρ)
  places : List (Option ρ)

namespace ReserveLog

variable {μ κ ν ρ : Type} [DecidableEq κ]

def empty (s : μ) : ReserveLog μ κ ν ρ := ⟨s, fun _ => none, []⟩

/-- Thread `k` reserves the next place and starts a body. -/
def reserve (L : ReserveLog μ κ ν ρ) (k : κ) (b : CellBody ν ρ) : ReserveLog μ κ ν ρ :=
  { L with
    running := Function.update L.running k (some (L.places.length, b))
    places := L.places ++ [none] }

/-- Thread `k` does one thing: an operation on its cell, or filling its place. -/
def tick (C : CellStore μ κ ν) (L : ReserveLog μ κ ν ρ) (k : κ) : ReserveLog μ κ ν ρ :=
  match L.running k with
  | none => L
  | some (i, .done r) =>
    { L with
      running := Function.update L.running k none
      places := L.places.set i (some r) }
  | some (i, .read next) =>
    { L with running := Function.update L.running k (some (i, next (C.get L.store k))) }
  | some (i, .write v next) =>
    { L with
      store := C.set L.store k v
      running := Function.update L.running k (some (i, next)) }

/-- What the reader can take: the records before the first open place. -/
def visible (L : ReserveLog μ κ ν ρ) : List ρ := (L.places.takeWhile Option.isSome).reduceOption

/-- No thread is inside a body. -/
def Quiet (L : ReserveLog μ κ ν ρ) : Prop := ∀ k, L.running k = none

section Tick

variable {C : CellStore μ κ ν} {L : ReserveLog μ κ ν ρ} {k : κ} {i : Nat}

theorem tick_idle (h : L.running k = none) : L.tick C k = L := by
  simp only [tick, h]

theorem tick_done {r : ρ} (h : L.running k = some (i, .done r)) : L.tick C k =
    { L with
      running := Function.update L.running k none
      places := L.places.set i (some r) } := by
  simp only [tick, h]

theorem tick_read {next : Option ν → CellBody ν ρ} (h : L.running k = some (i, .read next)) :
    L.tick C k =
      { L with running := Function.update L.running k (some (i, next (C.get L.store k))) } := by
  simp only [tick, h]

theorem tick_write {v : ν} {next : CellBody ν ρ} (h : L.running k = some (i, .write v next)) :
    L.tick C k =
      { L with
        store := C.set L.store k v
        running := Function.update L.running k (some (i, next)) } := by
  simp only [tick, h]

end Tick

/-! ### The log against the bodies run one after the other -/

/-- `s` and `recs` are the store and the records when every body has run at
once; a running body still has to do what leads from the log to them. -/
structure Linearized {C : CellStore μ κ ν} {keys : κ → Prop} (R : C.Roomy keys)
    (L : ReserveLog μ κ ν ρ) (s : μ) (recs : List ρ) : Prop where
  roomy : R.room L.store ∧ R.room s
  length : L.places.length = recs.length
  filled : ∀ (i : Nat) (r : ρ), L.places[i]? = some (some r) → recs[i]? = some r
  held : ∀ k i b, L.running k = some (i, b) → keys k ∧ L.places[i]? = some none ∧
    recs[i]? = some (b.exec C k L.store).2 ∧ C.get (b.exec C k L.store).1 k = C.get s k
  waiting : ∀ i : Nat, L.places[i]? = some none → ∃ k b, L.running k = some (i, b)
  distinct : ∀ k k' i b b', L.running k = some (i, b) → L.running k' = some (i, b') → k = k'
  idle : ∀ k, L.running k = none → C.get L.store k = C.get s k

section Linearized

variable {C : CellStore μ κ ν} {keys : κ → Prop} {R : C.Roomy keys} {L : ReserveLog μ κ ν ρ}
  {s : μ} {recs : List ρ} {k : κ}

omit [DecidableEq κ] in
theorem linearized_empty {s : μ} (hs : R.room s) :
    Linearized R (empty s : ReserveLog μ κ ν ρ) s [] where
  roomy := ⟨hs, hs⟩
  length := rfl
  filled i r h := by simp [empty] at h
  held k i b h := by simp [empty] at h
  waiting i h := by simp [empty] at h
  distinct k k' i b b' h := by simp [empty] at h
  idle k _ := rfl

theorem Linearized.reserve (h : Linearized R L s recs) (hidle : L.running k = none)
    (hk : keys k) (b : CellBody ν ρ) :
    Linearized R (L.reserve k b) (b.exec C k s).1 (recs ++ [(b.exec C k s).2]) where
  roomy := ⟨h.roomy.1, b.exec_room R h.roomy.2 hk⟩
  length := by simp [ReserveLog.reserve, h.length]
  filled i r hi := by
    simp only [ReserveLog.reserve] at hi
    rw [List.getElem?_append] at hi
    split at hi
    · rename_i hlt
      rw [List.getElem?_append_left (h.length ▸ hlt)]
      exact h.filled i r hi
    · simp [List.getElem?_singleton] at hi
  held k' i b' hrun := by
    simp only [ReserveLog.reserve] at hrun ⊢
    by_cases hkk : k' = k
    · subst hkk
      rw [Function.update_self] at hrun
      obtain ⟨rfl, rfl⟩ : i = L.places.length ∧ b' = b := by simpa [eq_comm] using hrun
      obtain ⟨hresult, hcell⟩ := b'.exec_congr R h.roomy.1 h.roomy.2 hk (h.idle k' hidle)
      refine ⟨hk, by simp, ?_, hcell⟩
      rw [h.length, hresult]
      simp
    · rw [Function.update_of_ne hkk] at hrun
      obtain ⟨hk', hopen, hrec, hcell⟩ := h.held k' i b' hrun
      obtain ⟨hlt, -⟩ := List.getElem?_eq_some_iff.mp hopen
      refine ⟨hk', ?_, ?_, ?_⟩
      · rwa [List.getElem?_append_left hlt]
      · rwa [List.getElem?_append_left (h.length ▸ hlt)]
      · rw [hcell, b.exec_get_ne R s hkk]
  waiting i hi := by
    simp only [ReserveLog.reserve] at hi ⊢
    rw [List.getElem?_append] at hi
    split at hi
    · obtain ⟨k', b', hrun⟩ := h.waiting i hi
      have hkk : k' ≠ k := by
        rintro rfl
        rw [hidle] at hrun
        cases hrun
      exact ⟨k', b', by rw [Function.update_of_ne hkk, hrun]⟩
    · rename_i hge
      have hzero : i - L.places.length = 0 := by
        by_contra hne
        rw [List.getElem?_singleton, if_neg hne] at hi
        cases hi
      exact ⟨k, b, by rw [Function.update_self, show i = L.places.length by omega]⟩
  distinct k₁ k₂ i b₁ b₂ h₁ h₂ := by
    simp only [ReserveLog.reserve] at h₁ h₂
    -- the new place lies behind every place held so far
    have hfresh {k' : κ} {j : Nat} {b' : CellBody ν ρ} (hrun : L.running k' = some (j, b')) :
        j < L.places.length := by
      obtain ⟨-, hopen, -⟩ := h.held k' j b' hrun
      exact (List.getElem?_eq_some_iff.mp hopen).1
    by_cases hk₁ : k₁ = k
    · by_cases hk₂ : k₂ = k
      · rw [hk₁, hk₂]
      · rw [hk₁, Function.update_self] at h₁
        rw [Function.update_of_ne hk₂] at h₂
        have hlt := hfresh h₂
        have heq : L.places.length = i := congrArg Prod.fst (Option.some.inj h₁)
        omega
    · rw [Function.update_of_ne hk₁] at h₁
      by_cases hk₂ : k₂ = k
      · rw [hk₂, Function.update_self] at h₂
        have hlt := hfresh h₁
        have heq : L.places.length = i := congrArg Prod.fst (Option.some.inj h₂)
        omega
      · rw [Function.update_of_ne hk₂] at h₂
        exact h.distinct k₁ k₂ i b₁ b₂ h₁ h₂
  idle k' hrun := by
    simp only [ReserveLog.reserve] at hrun ⊢
    have hkk : k' ≠ k := by
      rintro rfl
      rw [Function.update_self] at hrun
      cases hrun
    rw [Function.update_of_ne hkk] at hrun
    rw [h.idle k' hrun, b.exec_get_ne R s hkk]

/-- A step of a body that leaves it running with the same outcome. -/
theorem Linearized.advance (h : Linearized R L s recs) {i : Nat} {b b' : CellBody ν ρ} {store : μ}
    (hrun : L.running k = some (i, b)) (hroom : R.room store)
    (hexec : b'.exec C k store = b.exec C k L.store)
    (hother : ∀ k', k' ≠ k → C.get store k' = C.get L.store k') :
    Linearized R
      { L with store := store, running := Function.update L.running k (some (i, b')) } s recs where
  roomy := ⟨hroom, h.roomy.2⟩
  length := h.length
  filled := h.filled
  held k' j b₁ hrun' := by
    by_cases hkk : k' = k
    · subst hkk
      simp only [Function.update_self, Option.some.injEq, Prod.mk.injEq] at hrun'
      obtain ⟨rfl, rfl⟩ := hrun'
      simp only [hexec]
      exact h.held k' i b hrun
    · simp only [Function.update_of_ne hkk] at hrun'
      obtain ⟨hk', hopen, hrec, hcell⟩ := h.held k' j b₁ hrun'
      obtain ⟨hresult, hsame⟩ := b₁.exec_congr R hroom h.roomy.1 hk' (hother k' hkk)
      exact ⟨hk', hopen, by rw [hresult]; exact hrec, hsame.trans hcell⟩
  waiting j hj := by
    obtain ⟨k', b₁, hrun'⟩ := h.waiting j hj
    by_cases hkk : k' = k
    · subst hkk
      obtain ⟨rfl, rfl⟩ : i = j ∧ b = b₁ := by simpa using hrun.symm.trans hrun'
      exact ⟨k', b', Function.update_self ..⟩
    · exact ⟨k', b₁, by simp only [Function.update_of_ne hkk, hrun']⟩
  distinct k₁ k₂ j b₁ b₂ h₁ h₂ := by
    have hold {k' : κ} {b₁ : CellBody ν ρ}
        (hrun' : Function.update L.running k (some (i, b')) k' = some (j, b₁)) :
        ∃ b₂, L.running k' = some (j, b₂) := by
      by_cases hkk : k' = k
      · subst hkk
        simp only [Function.update_self, Option.some.injEq, Prod.mk.injEq] at hrun'
        exact ⟨b, hrun'.1 ▸ hrun⟩
      · rw [Function.update_of_ne hkk] at hrun'
        exact ⟨b₁, hrun'⟩
    obtain ⟨c₁, h₁'⟩ := hold h₁
    obtain ⟨c₂, h₂'⟩ := hold h₂
    exact h.distinct k₁ k₂ j c₁ c₂ h₁' h₂'
  idle k' hrun' := by
    have hkk : k' ≠ k := by
      rintro rfl
      simp at hrun'
    simp only [Function.update_of_ne hkk] at hrun'
    exact (hother k' hkk).trans (h.idle k' hrun')

/-- Filling the place that a thread holds. -/
theorem Linearized.fill (h : Linearized R L s recs) {i : Nat} {r : ρ}
    (hrun : L.running k = some (i, .done r)) :
    Linearized R
      { L with
        running := Function.update L.running k none
        places := L.places.set i (some r) } s recs where
  roomy := h.roomy
  length := by simp [h.length]
  filled j r' hj := by
    by_cases hji : i = j
    · subst hji
      obtain ⟨-, hopen, hrec, -⟩ := h.held k i _ hrun
      obtain ⟨hlt, -⟩ := List.getElem?_eq_some_iff.mp hopen
      simp only [List.getElem?_set_self hlt, Option.some.injEq] at hj
      rw [hrec, ← hj]
      rfl
    · simp only [List.getElem?_set_ne hji] at hj
      exact h.filled j r' hj
  held k' j b hrun' := by
    have hkk : k' ≠ k := by
      rintro rfl
      simp at hrun'
    simp only [Function.update_of_ne hkk] at hrun'
    obtain ⟨hk', hopen, hrest⟩ := h.held k' j b hrun'
    have hij : i ≠ j := by
      rintro rfl
      exact hkk (h.distinct k' k i _ _ hrun' hrun)
    refine ⟨hk', ?_, hrest⟩
    simpa only [List.getElem?_set_ne hij] using hopen
  waiting j hj := by
    obtain ⟨-, hopen, -⟩ := h.held k i _ hrun
    obtain ⟨hlt, -⟩ := List.getElem?_eq_some_iff.mp hopen
    have hij : i ≠ j := by
      rintro rfl
      simp [List.getElem?_set_self hlt] at hj
    simp only [List.getElem?_set_ne hij] at hj
    obtain ⟨k', b, hrun'⟩ := h.waiting j hj
    have hkk : k' ≠ k := by
      rintro rfl
      have heq : i = j := congrArg Prod.fst (Option.some.inj (hrun.symm.trans hrun'))
      exact hij heq
    exact ⟨k', b, by simp only [Function.update_of_ne hkk, hrun']⟩
  distinct k₁ k₂ j b₁ b₂ h₁ h₂ := by
    have hold {k' : κ} {b : CellBody ν ρ}
        (hrun' : Function.update L.running k none k' = some (j, b)) :
        L.running k' = some (j, b) := by
      have hkk : k' ≠ k := by
        rintro rfl
        simp at hrun'
      rwa [Function.update_of_ne hkk] at hrun'
    exact h.distinct k₁ k₂ j b₁ b₂ (hold h₁) (hold h₂)
  idle k' hrun' := by
    by_cases hkk : k' = k
    · subst hkk
      exact (h.held k' i _ hrun).2.2.2
    · simp only [Function.update_of_ne hkk] at hrun'
      exact h.idle k' hrun'

/-- Whatever a thread does next, the outcome stays. -/
theorem Linearized.tick (h : Linearized R L s recs) (k : κ) :
    Linearized R (L.tick C k) s recs := by
  cases hrun : L.running k with
  | none =>
      rw [tick_idle hrun]
      exact h
  | some held =>
      obtain ⟨i, b⟩ := held
      cases b with
      | done r =>
          rw [tick_done hrun]
          exact h.fill hrun
      | read next =>
          rw [tick_read hrun]
          exact h.advance hrun h.roomy.1 rfl (fun _ _ => rfl)
      | write v next =>
          rw [tick_write hrun]
          have hk := (h.held k i _ hrun).1
          exact h.advance hrun (R.room_set _ k v h.roomy.1 hk) rfl
            (fun k' hkk => R.get_set_ne _ k k' v hkk)

theorem Linearized.ticks (h : Linearized R L s recs) (ks : List κ) :
    Linearized R (ks.foldl (ReserveLog.tick C) L) s recs := by
  induction ks generalizing L with
  | nil => exact h
  | cons k rest ih => exact ih (h.tick k)

/-! ### What the reader takes -/

private theorem takeWhile_prefix : ∀ {places : List (Option ρ)} {recs : List ρ},
    (∀ (i : Nat) (r : ρ), places[i]? = some (some r) → recs[i]? = some r) →
    (places.takeWhile Option.isSome).reduceOption <+: recs
  | [], recs, _ => List.nil_prefix
  | none :: places, recs, _ => List.nil_prefix
  | some r :: places, recs, h => by
      have hfirst : recs[0]? = some r := h 0 r rfl
      cases recs with
      | nil => simp at hfirst
      | cons r' rest =>
          obtain rfl : r' = r := by simpa using hfirst
          have hrest : (places.takeWhile Option.isSome).reduceOption <+: rest :=
            takeWhile_prefix (fun i r hi => h (i + 1) r hi)
          simpa using hrest

omit [DecidableEq κ] in
theorem Linearized.visible_prefix (h : Linearized R L s recs) : L.visible <+: recs :=
  takeWhile_prefix h.filled

omit [DecidableEq κ] in
/-- When no thread is inside a body, the reader gets every record. -/
theorem Linearized.visible_of_quiet (h : Linearized R L s recs) (hquiet : L.Quiet) :
    L.visible = recs := by
  have hall : ∀ p ∈ L.places, p.isSome = true := by
    intro p hp
    obtain ⟨i, hi⟩ := List.mem_iff_getElem?.mp hp
    cases p with
    | some r => rfl
    | none =>
        obtain ⟨k, b, hrun⟩ := h.waiting i hi
        rw [hquiet k] at hrun
        cases hrun
  have htake : L.places.takeWhile Option.isSome = L.places :=
    List.takeWhile_eq_self_iff.mpr hall
  have hlen : L.visible.length = recs.length := by
    rw [visible, htake, ← h.length, List.reduceOption_length_eq_iff]
    exact hall
  exact h.visible_prefix.eq_of_length hlen

end Linearized

/-! ### Bodies end -/

section Progress

variable (C : CellStore μ κ ν)

/-- Left to itself, a thread fills its place; the other threads' places and
bodies do not change. -/
theorem exists_ticks (L : ReserveLog μ κ ν ρ) {k : κ} {i : Nat} {b : CellBody ν ρ}
    (hrun : L.running k = some (i, b)) :
    ∃ n store r, (List.replicate n k).foldl (tick C) L =
      ⟨store, Function.update L.running k none, L.places.set i (some r)⟩ := by
  induction b generalizing L with
  | done r => exact ⟨1, L.store, r, tick_done hrun⟩
  | read next ih =>
      obtain ⟨n, store, r, hn⟩ := ih (C.get L.store k)
        { L with running := Function.update L.running k (some (i, next (C.get L.store k))) }
        (Function.update_self ..)
      refine ⟨n + 1, store, r, ?_⟩
      rw [List.replicate_succ, List.foldl_cons, tick_read hrun, hn]
      simp
  | write v next ih =>
      obtain ⟨n, store, r, hn⟩ := ih
        { L with
          store := C.set L.store k v
          running := Function.update L.running k (some (i, next)) }
        (Function.update_self ..)
      refine ⟨n + 1, store, r, ?_⟩
      rw [List.replicate_succ, List.foldl_cons, tick_write hrun, hn]
      simp

variable {C} {keys : κ → Prop} {R : C.Roomy keys}

/-- Every log can be brought to rest by its threads alone. -/
theorem Linearized.exists_quiet {L : ReserveLog μ κ ν ρ} {s : μ} {recs : List ρ}
    (h : Linearized R L s recs) : ∃ ks : List κ, (ks.foldl (ReserveLog.tick C) L).Quiet := by
  -- the number of open places falls with every body that ends
  induction hopen : L.places.countP Option.isNone using Nat.strong_induction_on
    generalizing L with
  | _ n ih =>
      by_cases hquiet : L.Quiet
      · exact ⟨[], hquiet⟩
      · obtain ⟨k, hk⟩ := not_forall.mp hquiet
        obtain ⟨⟨i, b⟩, hrun⟩ := Option.ne_none_iff_exists'.mp hk
        obtain ⟨m, store, r, hm⟩ := exists_ticks C L hrun
        have hnext := h.ticks (List.replicate m k)
        have hplace := (h.held k i b hrun).2.1
        obtain ⟨hlt, hget⟩ := List.getElem?_eq_some_iff.mp hplace
        have hfewer : ((List.replicate m k).foldl (ReserveLog.tick C) L).places.countP
            Option.isNone < n := by
          have hpos : 0 < L.places.countP Option.isNone :=
            List.countP_pos_iff.mpr ⟨none, List.mem_of_getElem? hplace, rfl⟩
          rw [hm, List.countP_set hlt, hget]
          simp only [Option.isNone_none, if_true, Option.isNone_some, Bool.false_eq_true, if_false]
          omega
        obtain ⟨ks, hks⟩ := ih _ hfewer hnext rfl
        exact ⟨List.replicate m k ++ ks, by rwa [List.foldl_append]⟩

end Progress

end ReserveLog

/-! ### Bounded maps as stores -/

namespace BoundedMap

variable {κ ν : Type} [DecidableEq κ] {cap : Nat}

def cells (κ ν : Type) [DecidableEq κ] (cap : Nat) : CellStore (BoundedMap κ ν cap) κ ν where
  get := lookup
  set := update

/-- As long as at most `cap` keys are used, every one of them finds room. -/
def cellsRoomy (keys : List κ) (hlen : keys.dedup.length ≤ cap) :
    (cells κ ν cap).Roomy (· ∈ keys) where
  room m := ∀ k ∈ m.entries, k ∈ keys
  room_set m k v hm hk k' hk' := by
    rcases mem_of_mem_update m k k' v hk' with rfl | hold
    · exact hk
    · exact hm k' hold
  get_set_self m k v hm hk :=
    lookup_update_self m k v (accepts_of_subset m keys hm hlen k hk)
  get_set_ne m k k' v hne := lookup_update_ne m v hne

end BoundedMap
