import JniProbe.Lib.Runs
import Mathlib.Data.List.Perm.Basic

/-!
Jobs that look at a shared state twice. The state has two parts; commands change
one of them or both, at any moment, or end the process. A job reads the first
part when it begins and the second one when it finishes, and commands may come
in between. Such a run is always one in which every job runs at one moment, when
commands that change different parts may change places.
-/

/-- `mix s t` has the first part of `s` and the second one of `t`. -/
structure TwoViews (σ κ : Type*) where
  mix : σ → σ → σ
  act : σ → κ → Option σ
  first : κ → Bool
  second : κ → Bool
  mix_self : ∀ s, mix s s = s
  act_mix : ∀ {s t s' t' c}, act s c = some s' → act t c = some t' →
    act (mix s t) c = some (mix s' t')
  act_total : ∀ {s s' c} t, act s c = some s' → ∃ t', act t c = some t'
  first_idle : ∀ {s s' c} t, first c = false → act s c = some s' → mix s' t = mix s t
  second_idle : ∀ {s s' c} t, second c = false → act s c = some s' → mix t s' = mix t s

namespace TwoViews

variable {σ κ τ ρ : Type*} (V : TwoViews σ κ)

def acts (s : σ) (cs : List κ) : Option σ := cs.foldlM V.act s

@[simp] theorem acts_nil (s : σ) : V.acts s [] = some s := rfl

@[simp] theorem acts_cons (s : σ) (c : κ) (cs : List κ) :
    V.acts s (c :: cs) = (V.act s c).bind (fun s' => V.acts s' cs) :=
  List.foldlM_cons

theorem acts_append (s : σ) (cs cs' : List κ) :
    V.acts s (cs ++ cs') = (V.acts s cs).bind (fun s' => V.acts s' cs') :=
  List.foldlM_append

theorem acts_concat (s : σ) (cs : List κ) (c : κ) :
    V.acts s (cs ++ [c]) = (V.acts s cs).bind (fun s' => V.act s' c) := by
  rw [acts_append]
  congr 1
  funext s'
  rw [acts_cons]
  cases V.act s' c <;> rfl

/-! ### Commands that come between the two reads -/

/-- No command of the list changes both parts. -/
def Apart (cs : List κ) : Prop := ∀ c ∈ cs, V.second c = true → V.first c = false

variable {V}

theorem Apart.of_cons {c : κ} {cs : List κ} (h : V.Apart (c :: cs)) : V.Apart cs :=
  fun d hd => h d (List.mem_cons_of_mem _ hd)

theorem acts_second {cs : List κ} (hapart : V.Apart cs) {s s' : σ} (hacts : V.acts s cs = some s')
    (t : σ) : V.acts (V.mix t s) (cs.filter V.second) = some (V.mix t s') := by
  induction cs generalizing s with
  | nil =>
      obtain rfl : s = s' := Option.some.inj hacts
      rfl
  | cons c cs ih =>
      rw [acts_cons, Option.bind_eq_some_iff] at hacts
      obtain ⟨u, hact, hrest⟩ := hacts
      have hih := ih hapart.of_cons hrest
      rw [List.filter_cons]
      split
      · rename_i hsecond
        obtain ⟨t', ht'⟩ := V.act_total t hact
        have hmix : V.act (V.mix t s) c = some (V.mix t u) := by
          rw [V.act_mix ht' hact, V.first_idle u (hapart c (by simp) hsecond) ht']
        rw [acts_cons, hmix]
        exact hih
      · rename_i hsecond
        rw [← V.second_idle t (by simpa using hsecond) hact]
        exact hih

theorem acts_others {cs : List κ} (hapart : V.Apart cs) {s s' : σ} (hacts : V.acts s cs = some s')
    (t : σ) : V.acts (V.mix s t) (cs.filter (fun c => !V.second c)) = some (V.mix s' t) := by
  induction cs generalizing s with
  | nil =>
      obtain rfl : s = s' := Option.some.inj hacts
      rfl
  | cons c cs ih =>
      rw [acts_cons, Option.bind_eq_some_iff] at hacts
      obtain ⟨u, hact, hrest⟩ := hacts
      have hih := ih hapart.of_cons hrest
      rw [List.filter_cons]
      split
      · rename_i hothers
        obtain ⟨t', ht'⟩ := V.act_total t hact
        have hmix : V.act (V.mix s t) c = some (V.mix u t) := by
          rw [V.act_mix hact ht', V.second_idle u (by simpa using hothers) ht']
        rw [acts_cons, hmix]
        exact hih
      · rename_i hothers
        rw [← V.first_idle t (hapart c (by simp) (by simpa using hothers)) hact]
        exact hih

/-- Either no command changes both parts, or a last one does. -/
theorem exists_apart {s s' : σ} {cs : List κ} (hacts : V.acts s cs = some s') :
    ∃ before after u, cs = before ++ after ∧ V.acts s before = some u ∧
      V.acts u after = some s' ∧ V.Apart after ∧
      (before = [] ∨ ∃ c q, V.first c = true ∧ V.second c = true ∧ V.act q c = some u) := by
  induction cs generalizing s with
  | nil =>
      refine ⟨[], [], s, rfl, rfl, hacts, ?_, Or.inl rfl⟩
      intro c hc
      cases hc
  | cons c cs ih =>
      obtain ⟨v, hact, hrest⟩ := Option.bind_eq_some_iff.mp ((V.acts_cons s c cs).symm.trans hacts)
      obtain ⟨before, after, u, rfl, hbefore, hafter, hapart, hlast⟩ := ih hrest
      have hcons : V.acts s (c :: before) = some u := by rw [acts_cons, hact]; exact hbefore
      by_cases hboth : V.second c = true ∧ V.first c = true
      · refine ⟨c :: before, after, u, rfl, hcons, hafter, hapart, Or.inr ?_⟩
        rcases hlast with rfl | hlast
        · obtain rfl : v = u := Option.some.inj hbefore
          exact ⟨c, s, hboth.2, hboth.1, hact⟩
        · exact hlast
      · rcases hlast with rfl | hlast
        · refine ⟨[], c :: after, s, rfl, rfl, hacts, ?_, Or.inl rfl⟩
          intro d hd hsecond
          rcases List.mem_cons.mp hd with rfl | hd
          · exact eq_false_of_ne_true (fun hfirst => hboth ⟨hsecond, hfirst⟩)
          · exact hapart d hd hsecond
        · exact ⟨c :: before, after, u, rfl, hcons, hafter, hapart, Or.inr hlast⟩

/-! ### Jobs at one moment -/

variable (V)

/-- What happens at one moment. -/
inductive Item (ρ κ : Type*) where
  | work (r : ρ)
  | command (c : κ)

variable (job : σ → τ → ρ → τ)

/-- Jobs and commands one after the other; nothing works once the process has ended. -/
def playItem (p : Option σ × τ) : Item ρ κ → Option σ × τ
  | .work r =>
    match p.1 with
    | some s => (some s, job s p.2 r)
    | none => p
  | .command c => (p.1.bind (fun s => V.act s c), p.2)

def play (p : Option σ × τ) (items : List (Item ρ κ)) : Option σ × τ :=
  Runs.run (V.playItem job) p items

theorem play_append (p : Option σ × τ) (items items' : List (Item ρ κ)) :
    V.play job p (items ++ items') = V.play job (V.play job p items) items' :=
  Runs.run_append _ _ _ _

theorem play_commands (s : σ) (t : τ) (cs : List κ) :
    V.play job (some s, t) (cs.map (Item.command (ρ := ρ))) = (V.acts s cs, t) := by
  induction cs using List.reverseRecOn with
  | nil => rfl
  | append_singleton cs c ih =>
      rw [List.map_append, play_append, ih, acts_concat]
      rfl

theorem play_ended (t : τ) (items : List (Item ρ κ)) :
    V.play job (none, t) items = (none, t) := by
  induction items with
  | nil => rfl
  | cons item rest ih => cases item <;> exact ih

/-! ### Jobs at two moments -/

/-- A finished job, the commands taken before it since the job before it
finished, and those taken while it ran. -/
structure Handled (ρ κ : Type*) where
  idle : List κ
  work : ρ
  during : List κ

/-- The shared state (`none` when the process has ended), the job that runs and
the state it began in, and what has been worked so far. The history, with the
commands since its last job, is for the statements only. -/
structure World (σ τ ρ κ : Type*) where
  shared : Option σ
  reading : Option (ρ × σ)
  result : τ
  history : List (Handled ρ κ)
  idle : List κ
  during : List κ

inductive Move (ρ κ : Type*) where
  | begin (r : ρ)
  | finish
  | command (c : κ)

def World.start (s : σ) (t : τ) : World σ τ ρ κ where
  shared := some s
  reading := none
  result := t
  history := []
  idle := []
  during := []

def step (w : World σ τ ρ κ) : Move ρ κ → World σ τ ρ κ
  | .begin r =>
    match w.shared, w.reading with
    | some s, none => { w with reading := some (r, s) }
    | _, _ => w
  | .finish =>
    match w.shared, w.reading with
    | some s, some (r, begun) =>
      { w with
        reading := none
        result := job (V.mix begun s) w.result r
        history := w.history ++ [⟨w.idle, r, w.during⟩]
        idle := []
        during := [] }
    | _, _ => w
  | .command c =>
    match w.shared, w.reading with
    | some s, none => { w with shared := V.act s c, idle := w.idle ++ [c] }
    | some s, some _ => { w with shared := V.act s c, during := w.during ++ [c] }
    | none, _ => w

/-! ### The order in which they run at one moment -/

/-- The same commands; those which change the same part come in the same order. -/
structure SameOrder (cs cs' : List κ) : Prop where
  perm : cs.Perm cs'
  first : cs.filter V.first = cs'.filter V.first
  second : cs.filter V.second = cs'.filter V.second

/-- A job at one moment, and the commands before and behind it. -/
structure Block (ρ κ : Type*) where
  before : List κ
  work : ρ
  after : List κ

def Block.items (b : Block ρ κ) : List (Item ρ κ) :=
  b.before.map .command ++ .work b.work :: b.after.map .command

/-- The commands taken before the job stay before it, those taken while it ran
stand before or behind it. -/
def Places (h : Handled ρ κ) (b : Block ρ κ) : Prop :=
  b.work = h.work ∧ ∃ moved, b.before = h.idle ++ moved ∧ V.SameOrder (moved ++ b.after) h.during

/-- What a job makes of the first part is either settled whatever the second
one is, or the same after any command that changes both. -/
def Tolerant : Prop := ∀ (s : σ) (t : τ) (r : ρ),
  (∀ u, job (V.mix s u) t r = job s t r) ∨
    ∀ c q q', V.first c = true → V.second c = true → V.act q c = some q' →
      ∀ u, job (V.mix q' u) t r = job (V.mix s u) t r

variable {V job}

theorem SameOrder.refl (cs : List κ) : V.SameOrder cs cs := ⟨List.Perm.refl cs, rfl, rfl⟩

theorem SameOrder.append {cs cs' ds ds' : List κ} (h : V.SameOrder cs cs')
    (h' : V.SameOrder ds ds') : V.SameOrder (cs ++ ds) (cs' ++ ds') := by
  refine ⟨h.perm.append h'.perm, ?_, ?_⟩
  · rw [List.filter_append, List.filter_append, h.first, h'.first]
  · rw [List.filter_append, List.filter_append, h.second, h'.second]

/-- The commands on the second part may come first. -/
theorem SameOrder.of_apart {cs : List κ} (hapart : V.Apart cs) :
    V.SameOrder (cs.filter V.second ++ cs.filter (fun c => !V.second c)) cs := by
  refine ⟨List.filter_append_perm V.second cs, ?_, ?_⟩
  · rw [List.filter_append, List.filter_filter, List.filter_filter]
    have hnone : cs.filter (fun c => V.first c && V.second c) = [] := by
      rw [List.filter_eq_nil_iff]
      intro c hc
      cases hsecond : V.second c with
      | false => simp
      | true => simp [hapart c hc hsecond]
    have hall : cs.filter (fun c => V.first c && !V.second c) = cs.filter V.first := by
      apply List.filter_congr
      intro c hc
      cases hsecond : V.second c with
      | false => simp
      | true => simp [hapart c hc hsecond]
    rw [hnone, hall, List.nil_append]
  · rw [List.filter_append, List.filter_filter, List.filter_filter]
    simp

/-- The state behind the blocks is that behind their commands. -/
theorem acts_of_play {s u : σ} {t t' : τ} {blocks : List (Block ρ κ)}
    (h : V.play job (some s, t) (blocks.flatMap Block.items) = (some u, t')) :
    V.acts s (blocks.flatMap (fun b => b.before ++ b.after)) = some u := by
  induction blocks generalizing s t with
  | nil => exact congrArg Prod.fst h
  | cons b rest ih =>
      rw [List.flatMap_cons, Block.items, List.append_assoc, play_append, play_commands] at h
      rw [List.flatMap_cons, List.append_assoc, acts_append]
      cases hbefore : V.acts s b.before with
      | none =>
          rw [hbefore, play_ended] at h
          cases h
      | some v =>
          have hwork : V.playItem job (some v, t) (.work b.work) = (some v, job v t b.work) := rfl
          rw [hbefore, List.cons_append, play, Runs.run_cons, hwork, ← play, play_append,
            play_commands] at h
          rw [Option.bind_some, acts_append]
          cases hafter : V.acts v b.after with
          | none =>
              rw [hafter, play_ended] at h
              cases h
          | some v' =>
              rw [hafter] at h
              exact ih h

/-- A job and the commands taken while it ran, in an order in which it runs at
one moment. -/
theorem exists_moment (htolerant : V.Tolerant job) {s s' : σ} {during : List κ}
    (hacts : V.acts s during = some s') (t : τ) (r : ρ) :
    ∃ before after, V.SameOrder (before ++ after) during ∧
      V.play job (some s, t) (Block.items ⟨before, r, after⟩) =
        (some s', job (V.mix s s') t r) := by
  rcases htolerant s t r with hsettled | hreset
  · refine ⟨[], during, SameOrder.refl _, ?_⟩
    have hwork : V.playItem job (some s, t) (.work r) = (some s, job s t r) := rfl
    rw [Block.items, List.map_nil, List.nil_append, play, Runs.run_cons, hwork, hsettled s']
    have hplay := V.play_commands job s (job s t r) during
    rw [hacts] at hplay
    exact hplay
  · obtain ⟨before, after, u, rfl, hbefore, hafter, hapart, hlast⟩ := exists_apart hacts
    have hjob : job (V.mix u s') t r = job (V.mix s s') t r := by
      rcases hlast with rfl | ⟨c, q, hfirst, hsecond, hact⟩
      · obtain rfl : s = u := Option.some.inj hbefore
        rfl
      · exact hreset c q u hfirst hsecond hact s'
    have hseen : V.acts u (after.filter V.second) = some (V.mix u s') := by
      have h := acts_second hapart hafter u
      rwa [V.mix_self] at h
    have hrest : V.acts (V.mix u s') (after.filter (fun c => !V.second c)) = some s' := by
      have h := acts_others hapart hafter s'
      rwa [V.mix_self] at h
    refine ⟨before ++ after.filter V.second, after.filter (fun c => !V.second c), ?_, ?_⟩
    · rw [List.append_assoc]
      exact (SameOrder.refl before).append (SameOrder.of_apart hapart)
    · have hmoment : V.acts s (before ++ after.filter V.second) = some (V.mix u s') := by
        rw [acts_append, hbefore]
        exact hseen
      have hwork : V.playItem job (some (V.mix u s'), t) (.work r) =
          (some (V.mix u s'), job (V.mix s s') t r) := by
        rw [← hjob]
        rfl
      rw [Block.items, play_append, play_commands, hmoment, play, Runs.run_cons, hwork]
      have hplay := V.play_commands job (V.mix u s') (job (V.mix s s') t r)
        (after.filter (fun c => !V.second c))
      rw [hrest] at hplay
      exact hplay

/-! ### Every run is one of jobs at one moment -/

variable (V job)

/-- The blocks explain the world up to the last job, in the state `u`. -/
structure Explained (s₀ : σ) (t₀ : τ) (w : World σ τ ρ κ) (blocks : List (Block ρ κ))
    (u : σ) : Prop where
  placed : List.Forall₂ V.Places w.history blocks
  played : V.play job (some s₀, t₀) (blocks.flatMap Block.items) = (some u, w.result)
  idle : w.reading = none → V.acts u w.idle = w.shared ∧ w.during = []
  running : ∀ r s, w.reading = some (r, s) →
    V.acts u w.idle = some s ∧ V.acts s w.during = w.shared

variable {V job}

theorem explained_start (s : σ) (t : τ) :
    V.Explained job s t (World.start s t : World σ τ ρ κ) [] s where
  placed := .nil
  played := rfl
  idle _ := ⟨rfl, rfl⟩
  running := by rintro r s ⟨⟩

theorem Explained.step (htolerant : V.Tolerant job) {s₀ : σ} {t₀ : τ} {w : World σ τ ρ κ}
    (h : ∃ blocks u, V.Explained job s₀ t₀ w blocks u) (mv : Move ρ κ) :
    ∃ blocks u, V.Explained job s₀ t₀ (V.step job w mv) blocks u := by
  obtain ⟨blocks, u, h⟩ := h
  cases mv with
  | begin r =>
      simp only [TwoViews.step]
      split
      · rename_i s hs hidle
        obtain ⟨hacts, hduring⟩ := h.idle hidle
        refine ⟨blocks, u, h.placed, h.played, ?_, ?_⟩
        · rintro ⟨⟩
        · rintro r' s' ⟨rfl, rfl⟩
          refine ⟨hacts.trans hs, ?_⟩
          change V.acts s w.during = w.shared
          rw [hduring, hs]
          rfl
      · exact ⟨blocks, u, h⟩
  | command c =>
      simp only [TwoViews.step]
      split
      · rename_i s hs hidle
        obtain ⟨hacts, hduring⟩ := h.idle hidle
        refine ⟨blocks, u, h.placed, h.played, ?_, ?_⟩
        · intro _
          refine ⟨?_, hduring⟩
          rw [acts_concat, hacts, hs, Option.bind_some]
        · intro r s' hreading
          exact absurd (hidle.symm.trans hreading) (by simp)
      · rename_i s running hs hreading
        refine ⟨blocks, u, h.placed, h.played, ?_, ?_⟩
        · intro hidle
          exact absurd (hidle.symm.trans hreading) (by simp)
        · intro r b hb
          obtain ⟨hacts, hduring⟩ := h.running r b hb
          refine ⟨hacts, ?_⟩
          rw [acts_concat, hduring, hs, Option.bind_some]
      · exact ⟨blocks, u, h⟩
  | finish =>
      simp only [TwoViews.step]
      split
      · rename_i s' r b hs' hreading
        obtain ⟨hacts, hduring⟩ := h.running r b hreading
        obtain ⟨before, after, horder, hmoment⟩ :=
          exists_moment htolerant (hduring.trans hs') w.result r
        refine ⟨blocks ++ [⟨w.idle ++ before, r, after⟩], s', ?_, ?_, ?_, ?_⟩
        · exact List.rel_append h.placed (.cons ⟨rfl, before, rfl, horder⟩ .nil)
        · have hblock : Block.items ⟨w.idle ++ before, r, after⟩ =
              w.idle.map .command ++ Block.items ⟨before, r, after⟩ := by
            simp [Block.items]
          rw [List.flatMap_append, play_append, h.played, List.flatMap_singleton, hblock,
            play_append, play_commands, hacts, hmoment]
        · intro _
          exact ⟨hs'.symm, rfl⟩
        · rintro r' s ⟨⟩
      · exact ⟨blocks, u, h⟩

/-- However the moves interleave, the result is that of jobs and commands which
each run at one moment; the commands since the last job are still to come. -/
theorem exists_order (htolerant : V.Tolerant job) (s : σ) (t : τ) (moves : List (Move ρ κ)) :
    ∃ (blocks : List (Block ρ κ)) (u : σ),
      List.Forall₂ V.Places (Runs.run (V.step job) (World.start s t) moves).history blocks ∧
      V.play job (some s, t) (blocks.flatMap Block.items) =
        (some u, (Runs.run (V.step job) (World.start s t) moves).result) ∧
      V.acts u ((Runs.run (V.step job) (World.start s t) moves).idle ++
          (Runs.run (V.step job) (World.start s t) moves).during) =
        (Runs.run (V.step job) (World.start s t) moves).shared := by
  have hrun : ∃ blocks u,
      V.Explained job s t (Runs.run (V.step job) (World.start s t) moves) blocks u := by
    induction moves using List.reverseRecOn with
    | nil => exact ⟨[], s, explained_start s t⟩
    | append_singleton moves mv ih =>
        rw [Runs.run_concat]
        exact Explained.step htolerant ih mv
  obtain ⟨blocks, u, h⟩ := hrun
  refine ⟨blocks, u, h.placed, h.played, ?_⟩
  cases hreading : (Runs.run (V.step job) (World.start s t) moves).reading with
  | none =>
      obtain ⟨hacts, hduring⟩ := h.idle hreading
      rw [hduring, List.append_nil]
      exact hacts
  | some p =>
      obtain ⟨hacts, hduring⟩ := h.running p.1 p.2 hreading
      rw [acts_append, hacts]
      exact hduring

end TwoViews
