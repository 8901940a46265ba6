import JniProbe.Lib.TwoViews
import JniProbe.Loader.Commands
import JniProbe.System.Machine

/-!
Commands typed while an event is handled. The filters are locked for each check
and for each command, not for a whole event: `matchSlot` may see other filters
than the `matchLine` that follows it, because the goroutine that reads the
terminal runs beside the event loop.
-/

namespace JniProbe

open GoText

namespace Filters

/-- What `matchSlot` reads of `f` and what `matchLine` reads of `g`. -/
def mixed (f g : Filters) : Filters :=
  { g with modes := f.modes, only := f.only, exclude := f.exclude }

@[simp] theorem mixed_self (f : Filters) : f.mixed f = f := rfl

@[simp] theorem matchSlot_mixed (f g : Filters) (slot : Nat) :
    (f.mixed g).matchSlot slot = f.matchSlot slot := rfl

@[simp] theorem matchLine_mixed (f g : Filters) (cls method line callerMod : Bytes) :
    (f.mixed g).matchLine cls method line callerMod = g.matchLine cls method line callerMod := rfl

theorem matchSlot_cleared (slot : Nat) : cleared.matchSlot slot = true := rfl

end Filters

/-! ### Commands by what they change -/

inductive Command where
  | only (arg : Bytes)
  | exclude (arg : Bytes)
  | callers (arg : Bytes)
  | grep (arg : Bytes)
  | mode (arg : Bytes)
  | clear
  | quit
  | other

namespace Command

/-- The command of a line, with the text behind its name. -/
def read (text : Bytes) : Command :=
  let line := trimSpace text
  match fields line with
  | [] => other
  | cmd :: _ =>
    let arg := trimSpace (trimPrefix line cmd)
    if cmd = str "only" then only arg
    else if cmd = str "exclude" then exclude arg
    else if cmd = str "from" then callers arg
    else if cmd = str "grep" then grep arg
    else if cmd = str "mode" then mode arg
    else if cmd = str "clear" then clear
    else if cmd = str "quit" ∨ cmd = str "exit" then quit
    else other

def apply (f : Filters) : Command → Option Filters
  | only arg => some { f with only := splitList arg }
  | exclude arg => some { f with exclude := splitList arg }
  | callers arg => some { f with fromList := splitList arg }
  | grep arg => some { f with grep := arg }
  | mode arg => some { f with modes := splitList arg }
  | clear => some Filters.cleared
  | quit => none
  | other => some f

/-- It may change what `matchSlot` answers. -/
def changesSlots : Command → Bool
  | only _ | exclude _ | mode _ | clear => true
  | _ => false

/-- It may change what `matchLine` answers. -/
def changesLines : Command → Bool
  | callers _ | grep _ | clear => true
  | _ => false

end Command

theorem readCommand_eq (f : Filters) (text : Bytes) :
    readCommand f text = (Command.read text).apply f := by
  unfold readCommand applyCommand Command.read
  dsimp only
  split
  · rename_i hempty
    rw [hempty]
    rfl
  · cases fields (trimSpace text) with
    | nil => rfl
    | cons cmd rest =>
        dsimp only
        split_ifs <;> rfl

section Laws

variable {f g f' g' : Filters} {c : Command}

theorem Command.apply_mixed (hf : c.apply f = some f') (hg : c.apply g = some g') :
    c.apply (f.mixed g) = some (f'.mixed g') := by
  cases c with
  | quit => cases hf
  | only arg | exclude arg | callers arg | grep arg | mode arg | clear | other =>
      obtain rfl := Option.some.inj hf
      obtain rfl := Option.some.inj hg
      rfl

theorem Command.apply_total (g : Filters) (hf : c.apply f = some f') :
    ∃ g', c.apply g = some g' := by
  cases c with
  | quit => cases hf
  | only arg | exclude arg | callers arg | grep arg | mode arg | clear | other => exact ⟨_, rfl⟩

theorem Command.slots_unchanged (g : Filters) (hc : c.changesSlots = false)
    (hf : c.apply f = some f') : f'.mixed g = f.mixed g := by
  cases c with
  | quit => cases hf
  | only arg | exclude arg | mode arg | clear => cases hc
  | callers arg | grep arg | other =>
      obtain rfl := Option.some.inj hf
      rfl

theorem Command.lines_unchanged (g : Filters) (hc : c.changesLines = false)
    (hf : c.apply f = some f') : g.mixed f' = g.mixed f := by
  cases c with
  | quit => cases hf
  | callers arg | grep arg | clear => cases hc
  | only arg | exclude arg | mode arg | other =>
      obtain rfl := Option.some.inj hf
      rfl

/-- `clear` alone changes both parts. -/
theorem Command.eq_cleared (hslots : c.changesSlots = true) (hlines : c.changesLines = true)
    (hf : c.apply f = some f') : f' = Filters.cleared := by
  cases c with
  | clear => exact (Option.some.inj hf).symm
  | only arg | exclude arg | mode arg => cases hlines
  | callers arg | grep arg | quit | other => cases hslots

end Laws

/-- The filters, in the two parts that the event loop reads at two moments. -/
def filterViews : TwoViews Filters Bytes where
  mix := Filters.mixed
  act := readCommand
  first text := (Command.read text).changesSlots
  second text := (Command.read text).changesLines
  mix_self := Filters.mixed_self
  act_mix := by
    intro f g f' g' text hf hg
    rw [readCommand_eq] at hf hg ⊢
    exact Command.apply_mixed hf hg
  act_total := by
    intro f f' text g hf
    rw [readCommand_eq] at hf
    rw [readCommand_eq]
    exact Command.apply_total g hf
  first_idle := by
    intro f f' text g hc hf
    rw [readCommand_eq] at hf
    exact Command.slots_unchanged g hc hf
  second_idle := by
    intro f f' text g hc hf
    rw [readCommand_eq] at hf
    exact Command.lines_unchanged g hc hf

/-! ### Events -/

/-- A record handled while the filters are `f`. -/
def Env.withFilters (env : Env) (f : Filters) : Env := { env with filters := f }

/-- The loop body, as a job on the filters. -/
def handleRecord (S : Session) (f : Filters) (ld : Loader) (r : Record) : Loader :=
  ld.step S (r.env.withFilters f) r.evt

/-- The slot that the event loop asks `matchSlot` about. -/
def askedSlot (S : Session) (t : Tracker) (e : Evt) : Option Nat :=
  if !watched S.cfg e.tid then none
  else if e.kind = 1 then
    if e.depth < 0 then none else (t.frames (e.tid.toInt32, e.depth)).map Frame.slot
  else S.slotAt (e.ip - S.base)

/-- Filters that agree about the slot, and about the line when the slot is
wanted, handle a record alike. -/
theorem handleEvent_filters (S : Session) (env : Env) (t : Tracker) (e : Evt) {f g : Filters}
    (hslot : ∀ slot, askedSlot S t e = some slot → f.matchSlot slot = g.matchSlot slot)
    (hline : ∀ slot, askedSlot S t e = some slot → f.matchSlot slot = true →
      ∀ cls method line callerMod,
        f.matchLine cls method line callerMod = g.matchLine cls method line callerMod) :
    handleEvent S (env.withFilters f) t e = handleEvent S (env.withFilters g) t e := by
  unfold askedSlot at hslot hline
  unfold handleEvent
  split
  · rfl
  · rename_i hwatched
    rw [if_neg hwatched] at hslot hline
    split
    · rename_i hkind
      rw [if_pos hkind] at hslot hline
      unfold handleReturn
      split
      · rfl
      · rename_i hdepth
        rw [if_neg hdepth] at hslot hline
        dsimp only
        cases hframe : t.frames (e.tid.toInt32, e.depth) with
        | none => rfl
        | some fr =>
            rw [hframe, Option.map_some] at hslot hline
            dsimp only
            congr 1
            unfold returnLine
            have hasked : (f.matchSlot fr.slot && fr.call ≠ []) = true ↔
                (g.matchSlot fr.slot && fr.call ≠ []) = true := by
              rw [hslot fr.slot rfl]
            refine if_ctx_congr hasked (fun hwanted => ?_) (fun _ => rfl)
            have hf : f.matchSlot fr.slot = true :=
              (Bool.and_eq_true_iff.mp (hasked.mpr hwanted)).1
            have hshown (cls method line callerMod : Bytes) :
                f.matchLine cls method line callerMod = true ↔
                  g.matchLine cls method line callerMod = true := by
              rw [hline fr.slot rfl hf]
            exact if_congr Iff.rfl rfl (if_congr (hshown _ _ _ _) rfl rfl)
    · rename_i hkind
      rw [if_neg hkind] at hslot hline
      unfold handleEntry
      split
      · rfl
      · rename_i slot hat
        have hasked : (!f.matchSlot slot) = true ↔ (!g.matchSlot slot) = true := by
          rw [hslot slot hat]
        refine if_ctx_congr hasked (fun _ => rfl) (fun hwanted => ?_)
        have hf : f.matchSlot slot = true := by simpa using hasked.not.mpr hwanted
        have hshown (cls method line callerMod : Bytes) :
            f.matchLine cls method line callerMod = true ↔
              g.matchLine cls method line callerMod = true := by
          rw [hline slot hat hf]
        refine if_congr Iff.rfl rfl ?_
        cases isCallMethod (slotName slot) with
        | none => exact if_congr (hshown _ _ _ _) rfl rfl
        | some midIdx =>
            refine if_congr ?_ rfl rfl
            rw [Bool.and_eq_true_iff, Bool.and_eq_true_iff]
            exact and_congr_right' (hshown _ _ _ _)

theorem handleRecord_filters (S : Session) (ld : Loader) (r : Record) {f g : Filters}
    (hslot : ∀ slot, askedSlot S ld.tracker r.evt = some slot →
      f.matchSlot slot = g.matchSlot slot)
    (hline : ∀ slot, askedSlot S ld.tracker r.evt = some slot → f.matchSlot slot = true →
      ∀ cls method line callerMod,
        f.matchLine cls method line callerMod = g.matchLine cls method line callerMod) :
    handleRecord S f ld r = handleRecord S g ld r := by
  unfold handleRecord Loader.step
  rw [handleEvent_filters S r.env ld.tracker r.evt hslot hline]

/-- A slot that is not wanted is done with, and a wanted one stays wanted when
the filters are cleared. -/
theorem handleRecord_tolerant (S : Session) : filterViews.Tolerant (handleRecord S) := by
  intro f ld r
  cases hasked : askedSlot S ld.tracker r.evt with
  | none =>
      left
      intro g
      apply handleRecord_filters
      · intro slot h
        rw [hasked] at h
        cases h
      · intro slot h
        rw [hasked] at h
        cases h
  | some slot =>
      cases hwanted : f.matchSlot slot with
      | false =>
          left
          intro g
          apply handleRecord_filters
          · intro other _
            rfl
          · intro other h htrue
            obtain rfl : slot = other := Option.some.inj (hasked.symm.trans h)
            have hf : f.matchSlot slot = true := htrue
            rw [hwanted] at hf
            cases hf
      | true =>
          right
          intro text q q' hslots hlines hact g
          have hq' : q' = Filters.cleared := by
            have happly : (Command.read text).apply q = some q' :=
              (readCommand_eq q text).symm.trans hact
            exact Command.eq_cleared hslots hlines happly
          apply handleRecord_filters
          · intro other h
            obtain rfl : slot = other := Option.some.inj (hasked.symm.trans h)
            change q'.matchSlot slot = f.matchSlot slot
            rw [hq', hwanted, Filters.matchSlot_cleared]
          · intro other _ _ cls method line callerMod
            rfl

end JniProbe
