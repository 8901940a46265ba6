import JniProbe.Properties.ClassNames
import JniProbe.System.Delay

/-!
What the tracer learns and when it learns it. `handleReturn` reads the target's
memory when it processes a return. As long as each return finds there what was
there when the call returned, the caches are those of a loader without delay.
-/

namespace JniProbe

open GoText LatestWrite

section Source

variable {S : Session} {att : Attachment} {acts : List Action}

/-- When returns are paired, a named class object is one that a `FindClass` of
this name returned. -/
theorem PairsOwn.nameByClass_source (h : PairsOwn S (Machine.run S att acts).ring) (k : Nat)
    (hk : k ≤ (Machine.run S att acts).ring.length) {p : UInt64} {n : Bytes}
    (hname : (Tracker.after S ((Machine.run S att acts).ring.take k)).caches.nameByClass p =
      some n) :
    ∃ i j e r slot, j < k ∧ Completed S (Machine.run S att acts).ring i j e r slot ∧
      slotName slot = str "FindClass" ∧ r.evt.rc ≠ 0 ∧ resolveObj r.env.mr r.evt.rc = p ∧
      n = replaceByte (cstr r.env.mr (e.evt.a.get 1)) 47 46 := by
  induction k with
  | zero => cases hname
  | succ k ih =>
      have hr := List.getElem?_eq_getElem (show k < (Machine.run S att acts).ring.length by omega)
      generalize (Machine.run S att acts).ring[k] = r at hr
      have hearlier (hold : (Tracker.after S
          ((Machine.run S att acts).ring.take k)).caches.nameByClass p = some n) :
          ∃ i j e r slot, j < k + 1 ∧ Completed S (Machine.run S att acts).ring i j e r slot ∧
            slotName slot = str "FindClass" ∧ r.evt.rc ≠ 0 ∧ resolveObj r.env.mr r.evt.rc = p ∧
            n = replaceByte (cstr r.env.mr (e.evt.a.get 1)) 47 46 := by
        obtain ⟨i, j, e, r, slot, hj, hrest⟩ := ih (by omega) hold
        exact ⟨i, j, e, r, slot, by omega, hrest⟩
      cases hw : watched S.cfg r.evt.tid with
      | false =>
          rw [Tracker.after_take S hr, handleEvent_unwatched _ _ _ hw] at hname
          exact hearlier hname
      | true =>
          rcases h.caches_step hr hw with ⟨-, hsame⟩ | ⟨i, e, slot, -, hcall, hlearn⟩
          · rw [hsame] at hname
            exact hearlier hname
          · rw [hlearn, learn_nameByClass] at hname
            cases hwrite : classWrite r.env.mr (storedFrame S e.env e.evt slot
                (Tracker.after S ((Machine.run S att acts).ring.take i)).caches) r.evt.rc with
            | none =>
                rw [hwrite] at hname
                exact hearlier hname
            | some q =>
                rw [hwrite] at hname
                by_cases hq : q.1 = p
                · obtain ⟨q, n'⟩ := q
                  obtain rfl : q = p := hq
                  rw [put_some, Function.update_self] at hname
                  obtain rfl : n' = n := Option.some.inj hname
                  obtain ⟨hslot, -, hrc, -, hobj, htext⟩ := classWrite_eq_some _ _ _ hwrite
                  exact ⟨i, k, e, r, slot, by omega, hcall, hslot, hrc, hobj, htext⟩
                · rw [put_of_ne (by simpa using hq)] at hname
                  exact hearlier hname

end Source

/-- In every run of the target and the loader, with any delays, in which each
processed return takes from memory what it would have taken at the moment of
the return, the caches are at every moment those of a loader without delay;
and where returns are paired with their own entries, a class object is named
`n` only if a `FindClass` of `n` returned it. For a single return nothing less
will do: memories with another intake teach some caches differently. -/
theorem learning_on_time (S : Session) (att : Attachment) (opened : Bool) (mem : UserMemory)
    (moves : List Move) (hsteady : Runs.Along (Delayed.step S att opened)
      (Delayed.Steady S opened) (Delayed.start mem) moves) :
    (∀ before, before <+: moves →
      (Delayed.run S att opened mem before).tracker.caches =
        ((Delayed.run S att opened mem before).onTime S).caches ∧
      (PairsOwn S (Delayed.run S att opened mem before).machine.ring →
        ∀ p n, (Delayed.run S att opened mem before).tracker.caches.nameByClass p = some n →
          ∃ i j e r slot, j < (Delayed.run S att opened mem before).done ∧
            Completed S (Delayed.run S att opened mem before).machine.ring i j e r slot ∧
            slotName slot = str "FindClass" ∧ r.evt.rc ≠ 0 ∧
            resolveObj r.env.mr r.evt.rc = p ∧
            n = replaceByte (cstr r.env.mr (e.evt.a.get 1)) 47 46)) ∧
    ∀ mem mem' fr rc, (∀ cs, learn (some mem) fr rc cs = learn (some mem') fr rc cs) ↔
      rc = 0 ∨ intake (returnCase (slotName fr.slot)) (some mem) fr rc =
        intake (returnCase (slotName fr.slot)) (some mem') fr rc := by
  refine ⟨?_, fun mem mem' fr rc => learn_eq_iff fr rc mem mem'⟩
  intro before hwithin
  obtain ⟨hran, halike⟩ := Delayed.alike_run S att opened mem before (hsteady.of_prefix _ hwithin)
  generalize Delayed.run S att opened mem before = s at hran halike
  refine ⟨halike.caches, ?_⟩
  intro hpaired p n hname
  obtain ⟨⟨acts, hacts, -⟩, htaken⟩ := hran
  rw [halike.caches] at hname
  unfold Delayed.onTime at hname
  rw [hacts] at hpaired htaken hname ⊢
  exact hpaired.nameByClass_source s.done htaken hname

namespace Scenario

/-- `classMemory` after the reference `0x100010` was reused for the class `B`. -/
def reusedMemory : UserMemory := textMemory
  [(0x1000, str "java/lang/Class"), (0x1100, str "A"), (0x1200, str "B"),
    (0x100010, [0, 2, 0x20, 0]), (0x200100, [0, 0, 0x20, 0]), (0x200200, [0, 0, 0x20, 0])]

/-- A `FindClass` of `A` that returns `0x100010`, and what happens before its
two records are processed. -/
def findMoves (between : List Move) : List Move :=
  [.probe (.enter 1 0 (findHit 0x1100 0x100010)), .probe (.leave 1 (findHit 0x1100 0x100010))] ++
    between ++ [.process, .process]

end Scenario

open Scenario in
/-- A write elsewhere in memory does no harm. -/
theorem learning_on_time_found :
    (Delayed.run classSession .all true classMemory
      (findMoves [.write classMemory])).tracker.caches =
      ((Delayed.run classSession .all true classMemory
        (findMoves [.write classMemory])).onTime classSession).caches := by
  have hsteady : Runs.Along (Delayed.step classSession .all true)
      (Delayed.Steady classSession true) (Delayed.start classMemory)
      (findMoves [.write classMemory]) := by
    decide +kernel
  exact ((learning_on_time classSession .all true classMemory _ hsteady).1 _
    List.prefix_rfl).1

open Scenario in
/-- When the reference is reused before the return is processed, the other
class object gets the name and the right one does not. -/
theorem late_read_misnames :
    (Delayed.run classSession .all true classMemory
      (findMoves [.write reusedMemory])).tracker.caches.nameByClass 0x200200 = some (str "A") ∧
    (Delayed.run classSession .all true classMemory
      (findMoves [.write reusedMemory])).tracker.caches.nameByClass 0x200100 = none ∧
    ((Delayed.run classSession .all true classMemory
      (findMoves [.write reusedMemory])).onTime classSession).caches.nameByClass 0x200200 = none ∧
    ((Delayed.run classSession .all true classMemory
      (findMoves [.write reusedMemory])).onTime classSession).caches.nameByClass 0x200100 =
        some (str "A") := by
  decide +kernel

end JniProbe
