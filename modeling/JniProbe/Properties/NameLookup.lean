import Mathlib.Data.List.Sort
import JniProbe.Loader.Target

/-!
Which process `-n` selects. The first matching entry of `/proc` is taken, in
the order of the names as texts, and the command line of `jniprobe` itself
contains the name it looks for. So the order of the decimal texts of the pids
decides between the target and the tracer.
-/

namespace JniProbe

open GoText GoFormat

/-- What `/proc` lists: the processes, the command lines that can be read, and
the entries that are no processes. -/
structure ProcTable where
  pids : List Nat
  cmdline : Nat → Option Bytes
  others : List Bytes
  bounded : ∀ pid ∈ pids, pid < 2 ^ 31
  texts : ∀ name ∈ others, GoNumber.atoi name = none

namespace ProcTable

/-- `os.ReadDir` sorts by file name. -/
def readDir (t : ProcTable) : List Bytes :=
  (t.others ++ t.pids.map (digits 10)).insertionSort (· ≤ ·)

def cmdlineOf (t : ProcTable) (pid : Int) : Option Bytes := t.cmdline pid.toNat

def resolve (t : ProcTable) (sub : Bytes) : Except LookupError Int :=
  resolvePidByName sub (.ok t.readDir) t.cmdlineOf

/-- A process whose command line contains the text. -/
def Matches (t : ProcTable) (sub : Bytes) (pid : Nat) : Prop :=
  pid ∈ t.pids ∧ ∃ cmd, t.cmdline pid = some cmd ∧ contains cmd sub = true

variable {t : ProcTable} {sub : Bytes}

theorem atoi_pid {pid : Nat} (h : pid ∈ t.pids) :
    GoNumber.atoi (digits 10 pid) = some (pid : Int) := by
  have hlt := t.bounded pid h
  exact GoNumber.atoi_digits (by omega)

theorem digits_inj {pid pid' : Nat} (h : pid ∈ t.pids) (h' : pid' ∈ t.pids)
    (heq : digits 10 pid = digits 10 pid') : pid = pid' := by
  have hsame := atoi_pid h
  rw [heq, atoi_pid h'] at hsame
  exact (Int.ofNat.inj (Option.some.inj hsame)).symm

theorem mem_readDir (t : ProcTable) (name : Bytes) :
    name ∈ t.readDir ↔ name ∈ t.others ∨ ∃ pid ∈ t.pids, digits 10 pid = name := by
  rw [readDir, List.mem_insertionSort, List.mem_append, List.mem_map]

theorem readDir_sorted (t : ProcTable) : t.readDir.Pairwise (· ≤ ·) :=
  List.pairwise_insertionSort (· ≤ ·) _

/-- What the loop finds in one entry. -/
theorem matchEntry_pid {pid : Nat} (h : t.Matches sub pid) :
    matchEntry sub t.cmdlineOf (digits 10 pid) = some (pid : Int) := by
  obtain ⟨hpid, cmd, hcmd, hsub⟩ := h
  have hread : t.cmdlineOf (pid : Int) = some cmd := by
    rw [cmdlineOf, Int.toNat_natCast, hcmd]
  simp only [matchEntry, atoi_pid hpid, hread, hsub, if_true]

theorem matches_of_matchEntry {name : Bytes} {found : Int} (hname : name ∈ t.readDir)
    (h : matchEntry sub t.cmdlineOf name = some found) :
    ∃ pid : Nat, found = pid ∧ name = digits 10 pid ∧ t.Matches sub pid := by
  rcases (mem_readDir t name).mp hname with hother | ⟨pid, hpid, rfl⟩
  · rw [matchEntry, t.texts name hother] at h
    cases h
  · simp only [matchEntry, atoi_pid hpid] at h
    cases hread : t.cmdlineOf (pid : Int) with
    | none =>
        rw [hread] at h
        cases h
    | some cmd =>
        simp only [hread] at h
        split at h
        · rename_i hsub
          rw [cmdlineOf, Int.toNat_natCast] at hread
          exact ⟨pid, (Option.some.inj h).symm, rfl, hpid, cmd, hread, hsub⟩
        · cases h

/-- A matching process is found, and it is the first in the order of the texts. -/
theorem exists_resolve {pid : Nat} (h : t.Matches sub pid) : ∃ first : Nat,
    t.resolve sub = .ok first ∧ t.Matches sub first ∧
      ∀ pid, t.Matches sub pid → digits 10 first ≤ digits 10 pid := by
  have hmem {pid : Nat} (h : t.Matches sub pid) : digits 10 pid ∈ t.readDir :=
    (mem_readDir t _).mpr (Or.inr ⟨pid, h.1, rfl⟩)
  cases hfound : t.readDir.findSome? (matchEntry sub t.cmdlineOf) with
  | none =>
      have hnone := List.findSome?_eq_none_iff.mp hfound _ (hmem h)
      rw [matchEntry_pid h] at hnone
      cases hnone
  | some found =>
      obtain ⟨before, name, after, hsplit, hentry, hbefore⟩ := List.findSome?_eq_some_iff.mp hfound
      have hname : name ∈ t.readDir := by
        rw [hsplit]
        exact List.mem_append_right _ List.mem_cons_self
      obtain ⟨first, rfl, rfl, hmatches⟩ := matches_of_matchEntry hname hentry
      refine ⟨first, ?_, hmatches, ?_⟩
      · rw [resolve, resolvePidByName]
        simp only [hfound]
      · intro pid hpid
        have hsorted := readDir_sorted t
        have hin := hmem hpid
        rw [hsplit] at hsorted hin
        rcases List.mem_append.mp hin with hearlier | hlater
        · have hnone := hbefore _ hearlier
          rw [matchEntry_pid hpid] at hnone
          cases hnone
        · rcases List.mem_cons.mp hlater with heq | hlater
          · rw [heq]
            exact List.le_refl _
          · exact List.rel_of_pairwise_cons (List.pairwise_append.mp hsorted).2.1 hlater

/-- The pid of a process other than `self` is returned. -/
def FindsOther (t : ProcTable) (sub : Bytes) (self : Nat) : Prop :=
  ∃ pid : Nat, t.resolve sub = .ok (pid : Int) ∧ t.Matches sub pid ∧ pid ≠ self

end ProcTable

open ProcTable in
/-- Where `jniprobe` matches itself, the lookup finds another process exactly if
the pid of a matching one comes before its own as a text. -/
theorem name_lookup_iff (t : ProcTable) (sub : Bytes) (self : Nat) (hself : t.Matches sub self) :
    t.FindsOther sub self ↔ ∃ pid, t.Matches sub pid ∧ digits 10 pid < digits 10 self := by
  obtain ⟨first, hresolve, hfirst, hleast⟩ := exists_resolve hself
  constructor
  · rintro ⟨pid, hpid, hmatches, hne⟩
    obtain rfl : first = pid := by
      rw [hresolve] at hpid
      exact Int.ofNat.inj (Except.ok.inj hpid)
    refine ⟨first, hfirst, ?_⟩
    rw [← List.not_le]
    intro hle
    exact hne (digits_inj hfirst.1 hself.1 (List.le_antisymm (hleast self hself) hle))
  · rintro ⟨pid, hmatches, hlt⟩
    refine ⟨first, hresolve, hfirst, ?_⟩
    rintro rfl
    exact List.not_le.mpr hlt (hleast pid hmatches)

namespace Scenario

/-- A target and `jniprobe -n app`, which has started later. -/
def procTable (target self : Nat) (htarget : target < 2 ^ 31) (hself : self < 2 ^ 31) :
    ProcTable where
  pids := [target, self]
  cmdline := fun pid => if pid = self then some (str "jniprobe\x00-n\x00app") else some (str "app")
  others := [str "cpuinfo", str "self"]
  bounded := by
    intro pid hpid
    rcases List.mem_pair.mp hpid with rfl | rfl
    · exact htarget
    · exact hself
  texts := by decide

theorem procTable_matches (target self : Nat) (htarget : target < 2 ^ 31) (hself : self < 2 ^ 31)
    {pid : Nat} (h : pid ∈ [target, self]) :
    (procTable target self htarget hself).Matches (str "app") pid := by
  refine ⟨h, ?_⟩
  by_cases hown : pid = self
  · exact ⟨str "jniprobe\x00-n\x00app", if_pos hown, by decide⟩
  · exact ⟨str "app", if_neg hown, by decide⟩

end Scenario

open Scenario in
/-- The tracer with the pid 1000 does not find the process 999 but itself. -/
theorem lookup_finds_tracer :
    (procTable 999 1000 (by decide) (by decide)).Matches (str "app") 1000 ∧
      (procTable 999 1000 (by decide) (by decide)).Matches (str "app") 999 ∧
      (procTable 999 1000 (by decide) (by decide)).resolve (str "app") = .ok 1000 ∧
      ¬ (procTable 999 1000 (by decide) (by decide)).FindsOther (str "app") 1000 := by
  have hresolve : (procTable 999 1000 (by decide) (by decide)).resolve (str "app") = .ok 1000 := by
    decide +kernel
  refine ⟨procTable_matches _ _ _ _ (by decide), procTable_matches _ _ _ _ (by decide),
    hresolve, ?_⟩
  rintro ⟨pid, hpid, -, hne⟩
  rw [hresolve] at hpid
  exact hne (Int.ofNat.inj (Except.ok.inj hpid)).symm

open Scenario in
/-- With the pids 1234 and 5000 the target is found. -/
theorem lookup_finds_target :
    (procTable 1234 5000 (by decide) (by decide)).FindsOther (str "app") 5000 :=
  (name_lookup_iff _ _ _ (procTable_matches _ _ _ _ (by decide))).mpr
    ⟨1234, procTable_matches _ _ _ _ (by decide), by decide +kernel⟩

end JniProbe
