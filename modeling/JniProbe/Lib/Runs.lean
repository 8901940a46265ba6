import Mathlib.Data.List.Forall2
import Mathlib.Data.List.Induction

/-!
Runs of a deterministic machine: a state, a step function and the list of
actions taken. An invariant is proved for one step and carried along a run
whose actions meet a condition in the states they are taken in.
-/

namespace Runs

variable {σ α β : Type*} (step : σ → α → σ)

def run (s : σ) (acts : List α) : σ := acts.foldl step s

/-- Every action of the run meets `P` in the state it is taken in. -/
def Along (P : σ → α → Prop) : σ → List α → Prop
  | _, [] => True
  | s, a :: rest => P s a ∧ Along P (step s a) rest

instance instDecidableAlong {P : σ → α → Prop} [∀ s a, Decidable (P s a)] :
    ∀ (s : σ) (acts : List α), Decidable (Along step P s acts)
  | _, [] => isTrue trivial
  | s, a :: rest =>
    have : Decidable (Along step P (step s a) rest) := instDecidableAlong (step s a) rest
    inferInstanceAs (Decidable (P s a ∧ Along step P (step s a) rest))

@[simp] theorem run_nil (s : σ) : run step s [] = s := rfl

@[simp] theorem run_cons (s : σ) (a : α) (rest : List α) :
    run step s (a :: rest) = run step (step s a) rest := rfl

theorem run_append (s : σ) (first second : List α) :
    run step s (first ++ second) = run step (run step s first) second := by
  simp [run]

theorem run_concat (s : σ) (acts : List α) (a : α) :
    run step s (acts ++ [a]) = step (run step s acts) a := by
  simp [run]

theorem along_append (P : σ → α → Prop) (s : σ) (first second : List α) :
    Along step P s (first ++ second) ↔
      Along step P s first ∧ Along step P (run step s first) second := by
  induction first generalizing s with
  | nil => simp [Along]
  | cons a rest ih => simp [Along, ih, and_assoc]

theorem along_concat (P : σ → α → Prop) (s : σ) (acts : List α) (a : α) :
    Along step P s (acts ++ [a]) ↔ Along step P s acts ∧ P (run step s acts) a := by
  simp [along_append, Along]

theorem Along.of_prefix {P : σ → α → Prop} {s : σ} {acts before : List α}
    (h : Along step P s acts) (hwithin : before <+: acts) : Along step P s before := by
  obtain ⟨after, rfl⟩ := hwithin
  exact ((along_append step P s before after).mp h).1

theorem along_iff_prefix (P : σ → α → Prop) (s : σ) (acts : List α) :
    Along step P s acts ↔
      ∀ before a, before ++ [a] <+: acts → P (run step s before) a := by
  constructor
  · intro h before a hwithin
    exact ((along_concat step P s before a).mp (h.of_prefix step hwithin)).2
  · intro h
    induction acts using List.reverseRecOn with
    | nil => trivial
    | append_singleton acts a ih =>
        rw [along_concat]
        refine ⟨ih ?_, h acts a List.prefix_rfl⟩
        intro before b hwithin
        exact h before b (hwithin.trans (List.prefix_append _ _))

/-- What every allowed step keeps, every run whose steps are allowed keeps. -/
theorem invariant {I : σ → Prop} {P : σ → α → Prop}
    (hstep : ∀ s a, I s → P s a → I (step s a)) {s : σ} {acts : List α}
    (hinit : I s) (halong : Along step P s acts) : I (run step s acts) := by
  induction acts generalizing s with
  | nil => exact hinit
  | cons a rest ih => exact ih (hstep s a hinit halong.1) halong.2

/-- Two machines in related states that take related steps stay related. -/
theorem simulation {τ γ : Type*} {step' : τ → γ → τ} {R : σ → τ → Prop} {A : α → γ → Prop}
    (hstep : ∀ s t a b, R s t → A a b → R (step s a) (step' t b)) {acts : List α} {acts' : List γ}
    (hacts : List.Forall₂ A acts acts') {s : σ} {t : τ} (h : R s t) :
    R (run step s acts) (run step' t acts') := by
  induction hacts generalizing s t with
  | nil => exact h
  | cons ha _ ih => exact ih (hstep _ _ _ _ h ha)

/-- A log only grows. -/
theorem log_grows (log : σ → List β)
    (hgrow : ∀ s a, log (step s a) = log s ∨ ∃ r, log (step s a) = log s ++ [r])
    (s : σ) (acts : List α) : log s <+: log (run step s acts) := by
  induction acts generalizing s with
  | nil => exact List.prefix_rfl
  | cons a rest ih =>
      have hone : log s <+: log (step s a) := by
        rcases hgrow s a with hsame | ⟨r, hr⟩
        · exact hsame ▸ List.prefix_rfl
        · exact ⟨[r], hr.symm⟩
      exact hone.trans (ih (step s a))

/-- In a machine whose steps append at most one entry to a log, every prefix
of the log is the whole log of some prefix of the run. -/
theorem log_prefix (log : σ → List β)
    (hgrow : ∀ s a, log (step s a) = log s ∨ ∃ r, log (step s a) = log s ++ [r])
    (s : σ) (acts : List α) (n : Nat) (hlo : (log s).length ≤ n)
    (hhi : n ≤ (log (run step s acts)).length) :
    ∃ before, before <+: acts ∧ log (run step s before) = (log (run step s acts)).take n := by
  induction acts using List.reverseRecOn with
  | nil =>
      refine ⟨[], List.prefix_rfl, ?_⟩
      simp only [run_nil] at hhi ⊢
      rw [List.take_of_length_le (by omega)]
  | append_singleton acts a ih =>
      rw [run_concat] at hhi ⊢
      obtain ⟨added, hadded, hlen⟩ : ∃ added, log (step (run step s acts) a) =
          log (run step s acts) ++ added ∧ added.length ≤ 1 := by
        rcases hgrow (run step s acts) a with hsame | ⟨r, hr⟩
        · exact ⟨[], by simp [hsame], by simp⟩
        · exact ⟨[r], hr, by simp⟩
      by_cases hn : n ≤ (log (run step s acts)).length
      · obtain ⟨before, hwithin, hlog⟩ := ih hn
        refine ⟨before, hwithin.trans (List.prefix_append _ _), ?_⟩
        rw [hlog, hadded, List.take_append_of_le_length hn]
      · refine ⟨acts ++ [a], List.prefix_rfl, ?_⟩
        rw [run_concat, List.take_of_length_le]
        rw [hadded, List.length_append] at hhi ⊢
        omega

/-- Every entry of a log that starts empty was appended by one action of the
run, in a state whose log is the part before the entry. -/
theorem log_entry (log : σ → List β)
    (hgrow : ∀ s a, log (step s a) = log s ∨ ∃ r, log (step s a) = log s ++ [r])
    (s : σ) (hstart : log s = []) (acts : List α) (before after : List β) (r : β)
    (hlog : log (run step s acts) = before ++ r :: after) :
    ∃ first a, first ++ [a] <+: acts ∧ log (run step s first) = before ∧
      log (step (run step s first) a) = before ++ [r] := by
  induction acts using List.reverseRecOn generalizing after with
  | nil => simp [hstart] at hlog
  | append_singleton acts a ih =>
      rw [run_concat] at hlog
      have hearlier {tail : List β} (h : log (run step s acts) = before ++ r :: tail) :
          ∃ first b, first ++ [b] <+: acts ++ [a] ∧ log (run step s first) = before ∧
            log (step (run step s first) b) = before ++ [r] := by
        obtain ⟨first, b, hwithin, hrest⟩ := ih tail h
        exact ⟨first, b, hwithin.trans (List.prefix_append _ _), hrest⟩
      rcases hgrow (run step s acts) a with hsame | ⟨last, hlast⟩
      · exact hearlier (hsame.symm.trans hlog)
      · have heq : log (run step s acts) ++ [last] = before ++ r :: after := hlast.symm.trans hlog
        rcases List.eq_nil_or_concat after with rfl | ⟨init, tail, rfl⟩
        · obtain ⟨hbefore, hr⟩ := List.append_inj' heq rfl
          obtain rfl : last = r := by simpa using hr
          refine ⟨acts, a, List.prefix_rfl, hbefore, ?_⟩
          rw [hlast, hbefore]
        · have heq' : log (run step s acts) ++ [last] = (before ++ r :: init) ++ [tail] := by
            simpa using heq
          exact hearlier (List.append_inj' heq' rfl).1

end Runs
