import JniProbe.System.ModuleCache
import JniProbe.System.Scenario

/-!
What the module cache promises while the target maps modules and a goroutine
refreshes the cache behind the event loop's back: how often the maps are read
for a miss, when a new module is named at the latest, and that the cache is
right for good after one refresh of maps that no longer change.
-/

namespace JniProbe

open GoText

namespace ModWorld

/-- The module that the maps show at an address. -/
def shown (text : Option Bytes) (addr : UInt64) : Bytes := moduleOf (loadModules text).ranges addr

/-- At this address the maps show `nm` from `since` on, and nothing else before. -/
def Mapped (addr : UInt64) (nm : Bytes) (since : Nat) (w : ModWorld) : Prop :=
  shown w.text addr = nm ∨ shown w.text addr = [] ∧ w.now < since

/-- What has been read is stored within `delay`. -/
def Prompt (delay : Nat) (w : ModWorld) : ModMove → Prop
  | .reloadStore => ∀ snap, w.refresh = some snap → w.now ≤ snap.readAt + delay
  | .askStore => ∀ addr asked snap, w.asking = .loaded addr asked snap →
      w.now ≤ snap.readAt + delay
  | _ => True

/-- Maps read at this moment show the module unless they were read too early. -/
def Shows (addr : UInt64) (nm : Bytes) (since : Nat) (mods : ModuleMap) (readAt : Nat) : Prop :=
  moduleOf mods.ranges addr = nm ∨ moduleOf mods.ranges addr = [] ∧ readAt < since

/-- Every snapshot around shows the module or was read too early, the cache was
stored soon after its maps were read, and the late answers are right. -/
structure Named (addr : UInt64) (nm : Bytes) (since delay : Nat) (w : ModWorld) : Prop where
  cache : Shows addr nm since w.cache.mods w.readAt
  stored : w.cache.last ≤ w.readAt + delay
  refresh : ∀ snap, w.refresh = some snap → Shows addr nm since snap.mods snap.readAt
  missed : ∀ a asked, w.asking = .missed a asked → asked ≤ w.now
  loaded : ∀ a asked snap, w.asking = .loaded a asked snap →
    Shows addr nm since snap.mods snap.readAt ∧ asked ≤ snap.readAt
  answers : ∀ ans ∈ w.answers, ans.addr = addr → since + staleAfter + delay ≤ ans.asked →
    ans.name = nm

section Step

variable {addr : UInt64} {nm : Bytes} {since delay : Nat} {w : ModWorld}

theorem Mapped.snapshot (h : Mapped addr nm since w) :
    Shows addr nm since w.snapshot.mods w.snapshot.readAt := h

theorem named_start {now : Nat} {text : Option Bytes}
    (h : Mapped addr nm since (start now text)) : Named addr nm since delay (start now text) where
  cache := h
  stored := Nat.le_add_right _ _
  refresh snap hsnap := by cases hsnap
  missed a asked hasking := by cases hasking
  loaded a asked snap hasking := by cases hasking
  answers ans hans := by cases hans

/-- An answer is given at once if the cache has a name, or was stored lately;
in neither case can the module be missing for long. -/
theorem Named.ask (h : Named addr nm since delay w) (a : UInt64) :
    Named addr nm since delay (w.step (.ask a)) := by
  simp only [step]
  split
  · split
    · refine ⟨h.cache, h.stored, h.refresh, ?_, ?_, h.answers⟩
      · rintro a asked ⟨rfl, rfl⟩
        exact Nat.le_refl _
      · rintro a asked snap ⟨⟩
    · rename_i hanswer
      refine ⟨h.cache, h.stored, h.refresh, h.missed, h.loaded, ?_⟩
      intro ans hans haddr hlate
      rcases List.mem_append.mp hans with hold | hnew
      · exact h.answers ans hold haddr hlate
      · obtain rfl := List.mem_singleton.mp hnew
        obtain rfl : a = addr := haddr
        rcases h.cache with hnm | ⟨hnone, hearly⟩
        · exact hnm
        · have hfresh : ¬ staleAfter < w.now - w.cache.last := by simpa [hnone] using hanswer
          have hstored := h.stored
          have hnow : since + staleAfter + delay ≤ w.now := hlate
          omega
  · exact h

/-- The answer after a miss comes from maps read after the call began. -/
theorem Named.askStore (h : Named addr nm since delay w) (hprompt : Prompt delay w .askStore) :
    Named addr nm since delay (w.step .askStore) := by
  simp only [step]
  split
  · rename_i a asked snap hasking
    obtain ⟨hshows, hread⟩ := h.loaded a asked snap hasking
    refine ⟨hshows, hprompt a asked snap hasking, h.refresh, ?_, ?_, ?_⟩
    · rintro a asked ⟨⟩
    · rintro a asked snap ⟨⟩
    · intro ans hans haddr hlate
      rcases List.mem_append.mp hans with hold | hnew
      · exact h.answers ans hold haddr hlate
      · obtain rfl := List.mem_singleton.mp hnew
        obtain rfl : a = addr := haddr
        rcases hshows with hnm | ⟨-, hearly⟩
        · exact hnm
        · have hasked : since + staleAfter + delay ≤ asked := hlate
          omega
  · exact h

theorem Named.step (h : Named addr nm since delay w) (hmapped : Mapped addr nm since w)
    (mv : ModMove) (hprompt : Prompt delay w mv) : Named addr nm since delay (w.step mv) := by
  cases mv with
  | wait ns =>
      refine ⟨h.cache, h.stored, h.refresh, ?_, h.loaded, h.answers⟩
      intro a asked hasking
      exact Nat.le_add_right_of_le (h.missed a asked hasking)
  | remap text => exact ⟨h.cache, h.stored, h.refresh, h.missed, h.loaded, h.answers⟩
  | reloadRead =>
      simp only [ModWorld.step]
      split
      · refine ⟨h.cache, h.stored, ?_, h.missed, h.loaded, h.answers⟩
        intro snap hsnap
        rw [← Option.some.inj hsnap]
        exact hmapped.snapshot
      · exact h
  | reloadStore =>
      simp only [ModWorld.step]
      split
      · exact h
      · rename_i snap hsnap
        split
        · exact h
        · refine ⟨h.refresh snap hsnap, hprompt snap hsnap, ?_, h.missed, h.loaded, h.answers⟩
          rintro snap ⟨⟩
  | ask a => exact h.ask a
  | askRead =>
      simp only [ModWorld.step]
      split
      · rename_i a asked hasking
        refine ⟨h.cache, h.stored, h.refresh, ?_, ?_, h.answers⟩
        · rintro a asked ⟨⟩
        · rintro a asked snap ⟨rfl, rfl, rfl⟩
          exact ⟨hmapped.snapshot, h.missed _ _ hasking⟩
      · exact h
  | askStore => exact h.askStore hprompt

end Step

end ModWorld

open ModWorld

/-- Once the maps show a module at an address, where they showed nothing before,
every question that begins 300 ms and the delay of a store later is answered
with its name, also when the goroutine puts older maps back. -/
theorem new_module_named (now : Nat) (text : Option Bytes) (moves : List ModMove) (addr : UInt64)
    (nm : Bytes) (since delay : Nat)
    (hmoves : Runs.Along ModWorld.step
      (fun w mv => Mapped addr nm since w ∧ Prompt delay w mv) (ModWorld.start now text) moves)
    (hstart : Mapped addr nm since (ModWorld.start now text)) :
    ∀ ans ∈ ((ModWorld.start now text).run moves).answers, ans.addr = addr →
      since + staleAfter + delay ≤ ans.asked → ans.name = nm := by
  have h : Named addr nm since delay ((ModWorld.start now text).run moves) :=
    Runs.invariant ModWorld.step (fun _ mv h hcond => h.step hcond.1 mv hcond.2)
      (named_start hstart) hmoves
  exact h.answers

namespace Scenario

/-- One library, mapped at `1000-2000`. -/
def libraryMaps : Option Bytes := some (str "1000-2000 r-xp 00000000 00:00 1 /lib/libfoo.so\n")

/-- The library is mapped while the goroutine holds older maps; a second later
it is asked for. -/
def loadLibrary : List ModMove :=
  [.reloadRead, .wait 10, .remap libraryMaps, .wait 1000000000, .ask 0x1800, .askRead, .askStore]

example : ((ModWorld.start 0 none).run loadLibrary).answers =
    [⟨0x1800, 1000000010, str "libfoo.so"⟩] := rfl

end Scenario

open Scenario in
theorem loadLibrary_named : ∃ ans ∈ ((ModWorld.start 0 none).run loadLibrary).answers,
    ans.asked = 1000000010 ∧ ans.name = str "libfoo.so" := by
  have hold (now : Nat) (hnow : now < 11) (w : ModWorld) (hw : w.now = now)
      (htext : w.text = none) : Mapped 0x1800 (str "libfoo.so") 11 w :=
    Or.inr ⟨by rw [htext]; rfl, by omega⟩
  have hnew (w : ModWorld) (htext : w.text = libraryMaps) :
      Mapped 0x1800 (str "libfoo.so") 11 w := by
    left
    rw [htext]
    decide +kernel
  obtain ⟨ans, hans, haddr, hasked⟩ : ∃ ans ∈ ((ModWorld.start 0 none).run loadLibrary).answers,
      ans.addr = 0x1800 ∧ ans.asked = 1000000010 := ⟨_, List.mem_cons_self, rfl, rfl⟩
  refine ⟨ans, hans, hasked, ?_⟩
  apply new_module_named 0 none loadLibrary 0x1800 (str "libfoo.so") 11 0 _ _ ans hans haddr
  · rw [hasked]
    decide
  · refine ⟨⟨hold 0 (by decide) _ rfl rfl, trivial⟩, ⟨hold 0 (by decide) _ rfl rfl, trivial⟩,
      ⟨hold 10 (by decide) _ rfl rfl, trivial⟩, ⟨hnew _ rfl, trivial⟩, ⟨hnew _ rfl, trivial⟩,
      ⟨hnew _ rfl, trivial⟩, ⟨hnew _ rfl, ?_⟩, trivial⟩
    rintro addr asked snap ⟨rfl, rfl, rfl⟩
    exact Nat.le_refl _
  · exact hold 0 (by decide) _ rfl rfl

/-! ### Maps that no longer change -/

namespace ModWorld

def keepsMaps : ModMove → Bool
  | .remap _ => false
  | _ => true

/-- Nothing older than these maps is around any more. -/
structure Current (text : Option Bytes) (w : ModWorld) : Prop where
  maps : w.text = text
  cache : w.cache.mods = loadModules text
  refresh : ∀ snap, w.refresh = some snap → snap.mods = loadModules text
  loaded : ∀ addr asked snap, w.asking = .loaded addr asked snap → snap.mods = loadModules text

section Settle

variable {text : Option Bytes} {w : ModWorld}

/-- The cache stays right, and so do the answers. -/
theorem Current.step (h : Current text w) (mv : ModMove) (hkeeps : keepsMaps mv = true) :
    Current text (w.step mv) ∧ ∃ new, (w.step mv).answers = w.answers ++ new ∧
      ∀ ans ∈ new, ans.name = shown text ans.addr := by
  have hsnap : w.snapshot.mods = loadModules text := by rw [← h.maps]; rfl
  have hquiet {w' : ModWorld} (hw' : Current text w') (hanswers : w'.answers = w.answers) :
      Current text w' ∧ ∃ new, w'.answers = w.answers ++ new ∧
        ∀ ans ∈ new, ans.name = shown text ans.addr :=
    ⟨hw', [], by simpa using hanswers, by simp⟩
  cases mv with
  | wait ns => exact hquiet ⟨h.maps, h.cache, h.refresh, h.loaded⟩ rfl
  | remap text => cases hkeeps
  | reloadRead =>
      simp only [ModWorld.step]
      split
      · refine hquiet ⟨h.maps, h.cache, ?_, h.loaded⟩ rfl
        intro snap hread
        rw [← Option.some.inj hread]
        exact hsnap
      · exact hquiet h rfl
  | reloadStore =>
      simp only [ModWorld.step]
      split
      · exact hquiet h rfl
      · rename_i snap hread
        split
        · exact hquiet h rfl
        · refine hquiet ⟨h.maps, h.refresh snap hread, ?_, h.loaded⟩ rfl
          rintro snap ⟨⟩
  | ask addr =>
      simp only [ModWorld.step]
      split
      · split
        · refine hquiet ⟨h.maps, h.cache, h.refresh, ?_⟩ rfl
          rintro addr asked snap ⟨⟩
        · refine ⟨⟨h.maps, h.cache, h.refresh, h.loaded⟩, _, rfl, ?_⟩
          intro ans hans
          rw [List.mem_singleton.mp hans, h.cache]
          rfl
      · exact hquiet h rfl
  | askRead =>
      simp only [ModWorld.step]
      split
      · refine hquiet ⟨h.maps, h.cache, h.refresh, ?_⟩ rfl
        rintro addr asked snap ⟨rfl, rfl, rfl⟩
        exact hsnap
      · exact hquiet h rfl
  | askStore =>
      simp only [ModWorld.step]
      split
      · rename_i addr asked snap hasking
        have hmods := h.loaded addr asked snap hasking
        refine ⟨⟨h.maps, hmods, h.refresh, ?_⟩, _, rfl, ?_⟩
        · rintro addr asked snap ⟨⟩
        · intro ans hans
          rw [List.mem_singleton.mp hans, hmods]
          rfl
      · exact hquiet h rfl

theorem Current.run (h : Current text w) (moves : List ModMove)
    (hkeep : ∀ mv ∈ moves, keepsMaps mv = true) :
    Current text (w.run moves) ∧ ∃ new, (w.run moves).answers = w.answers ++ new ∧
      ∀ ans ∈ new, ans.name = shown text ans.addr := by
  induction moves generalizing w with
  | nil => exact ⟨h, [], by simp [ModWorld.run], by simp⟩
  | cons mv rest ih =>
      obtain ⟨hnext, new, hnew, hright⟩ := h.step mv (hkeep mv (by simp))
      obtain ⟨hlast, more, hmore, hmoreRight⟩ :=
        ih hnext (fun mv hmv => hkeep mv (List.mem_cons_of_mem _ hmv))
      refine ⟨hlast, new ++ more, ?_, ?_⟩
      · rw [ModWorld.run, Runs.run_cons, ← List.append_assoc, ← hnew]
        exact hmore
      · intro ans hans
        rcases List.mem_append.mp hans with h₁ | h₂
        · exact hright ans h₁
        · exact hmoreRight ans h₂

/-- Between the read and the store of one refresh: the goroutine holds these
maps, or has stored them. -/
def Refreshing (text : Option Bytes) (w : ModWorld) : Prop :=
  w.text = text ∧ ∃ snap, w.refresh = some snap ∧ snap.mods = loadModules text

theorem refreshing_step (h : Refreshing text w) (mv : ModMove) (hkeeps : keepsMaps mv = true) :
    Refreshing text (w.step mv) ∨ Current text (w.step mv) := by
  obtain ⟨htext, snap, hsnap, hmods⟩ := h
  cases mv with
  | wait ns => exact Or.inl ⟨htext, snap, hsnap, hmods⟩
  | remap text => cases hkeeps
  | reloadRead =>
      simp only [ModWorld.step, hsnap]
      exact Or.inl ⟨htext, snap, hsnap, hmods⟩
  | reloadStore =>
      simp only [ModWorld.step, hsnap]
      split
      · exact Or.inl ⟨htext, snap, hsnap, hmods⟩
      · rename_i hfree
        refine Or.inr ⟨htext, hmods, ?_, ?_⟩
        · rintro snap ⟨⟩
        · intro addr asked snap' hasking
          have hlocked : w.locked = true := by
            have hsame : w.asking = .loaded addr asked snap' := hasking
            simp [locked, hsame]
          exact absurd hlocked hfree
  | ask addr =>
      left
      simp only [ModWorld.step]
      split
      · split
        · exact ⟨htext, snap, hsnap, hmods⟩
        · exact ⟨htext, snap, hsnap, hmods⟩
      · exact ⟨htext, snap, hsnap, hmods⟩
  | askRead =>
      left
      simp only [ModWorld.step]
      split
      · exact ⟨htext, snap, hsnap, hmods⟩
      · exact ⟨htext, snap, hsnap, hmods⟩
  | askStore =>
      left
      simp only [ModWorld.step]
      split
      · exact ⟨htext, snap, hsnap, hmods⟩
      · exact ⟨htext, snap, hsnap, hmods⟩

theorem refreshing_run (h : Refreshing text w) (moves : List ModMove)
    (hkeep : ∀ mv ∈ moves, keepsMaps mv = true) :
    Refreshing text (w.run moves) ∨ Current text (w.run moves) := by
  induction moves generalizing w with
  | nil => exact Or.inl h
  | cons mv rest ih =>
      have hrest : ∀ mv ∈ rest, keepsMaps mv = true :=
        fun mv hmv => hkeep mv (List.mem_cons_of_mem _ hmv)
      rcases refreshing_step h mv (hkeep mv (by simp)) with hstill | hdone
      · exact ih hstill hrest
      · exact Or.inr (hdone.run rest hrest).1

end Settle

end ModWorld

/-- When the maps no longer change, the cache is right for good once the
goroutine has stored what it read after the last change; whatever the cache held
or the event loop was doing before, all later answers are those of the maps. -/
theorem refresh_settles (w : ModWorld) (hidle : w.refresh = none) (during after : List ModMove)
    (hduring : ∀ mv ∈ during, keepsMaps mv = true) (hafter : ∀ mv ∈ after, keepsMaps mv = true)
    (hstored : (w.run (.reloadRead :: during)).refresh = none) :
    (w.run (.reloadRead :: during ++ after)).cache.mods = loadModules w.text ∧
      ∃ new, (w.run (.reloadRead :: during ++ after)).answers =
          (w.run (.reloadRead :: during)).answers ++ new ∧
        ∀ ans ∈ new, ans.name = shown w.text ans.addr := by
  have hread : Refreshing w.text (w.step .reloadRead) := by
    simp only [ModWorld.step, hidle]
    exact ⟨rfl, _, rfl, rfl⟩
  have hcurrent : Current w.text (w.run (.reloadRead :: during)) := by
    rcases refreshing_run hread during hduring with ⟨-, snap, hsnap, -⟩ | hdone
    · have hpending : (w.run (.reloadRead :: during)).refresh = some snap := hsnap
      rw [hstored] at hpending
      cases hpending
    · exact hdone
  have hsplit : w.run (.reloadRead :: during ++ after) =
      (w.run (.reloadRead :: during)).run after := Runs.run_append _ _ _ _
  rw [hsplit]
  obtain ⟨hlast, new, hnew, hright⟩ := hcurrent.run after hafter
  exact ⟨hlast.cache, new, hnew, hright⟩

open Scenario in
/-- The goroutine reads the maps with the library, while the event loop is about
to store older ones. -/
theorem loadLibrary_settles :
    (((ModWorld.start 0 none).run [.wait 1000000000, .ask 0x1800, .askRead,
      .remap libraryMaps]).run
        (.reloadRead :: [.reloadStore, .askStore, .reloadStore] ++ [.ask 0x1800])).cache.mods =
      loadModules libraryMaps := by
  refine (refresh_settles _ rfl [.reloadStore, .askStore, .reloadStore] [.ask 0x1800] ?_ ?_ rfl).1
  · simp [keepsMaps]
  · simp [keepsMaps]

end JniProbe
