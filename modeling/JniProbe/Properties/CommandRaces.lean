import JniProbe.Properties.NoReturns
import JniProbe.System.Scenario
import JniProbe.System.TypedCommands

/-!
Commands that race with the event loop. A command may come between the two
checks of an event, which then sees a part of the old filters and a part of the
new ones. No such output is new: some order of events and commands, each at one
moment, gives it.
-/

namespace JniProbe

open GoText TwoViews

/-- The event loop and the terminal, side by side. -/
def raced (S : Session) (moves : List (TwoViews.Move Record Bytes)) :
    World Filters Loader Record Bytes :=
  Runs.run (filterViews.step (handleRecord S)) (World.start S.filters Loader.start) moves

/-- The records of a run of events and commands one after the other, each with
the filters in force. -/
def inForce (f : Filters) : List (Item Record Bytes) → List Record
  | [] => []
  | .work r :: rest => { r with env := r.env.withFilters f } :: inForce f rest
  | .command text :: rest =>
    match readCommand f text with
    | some g => inForce g rest
    | none => []

theorem play_inForce (S : Session) {f g : Filters} {ld ld' : Loader}
    {items : List (Item Record Bytes)}
    (h : filterViews.play (handleRecord S) (some f, ld) items = (some g, ld')) :
    (inForce f items).foldl (fun ld r => ld.step S r.env r.evt) ld = ld' := by
  induction items generalizing f ld with
  | nil => exact congrArg Prod.snd h
  | cons item rest ih =>
      cases item with
      | work r => exact ih h
      | command text =>
          have hcons : filterViews.play (handleRecord S) (readCommand f text, ld) rest =
              (some g, ld') := h
          rw [inForce]
          cases hread : readCommand f text with
          | none =>
              rw [hread, play_ended] at hcons
              cases hcons
          | some f' =>
              rw [hread] at hcons
              exact ih hcons

namespace Scenario

/-- `GetVersion`, shown only in lines with `x`. -/
def narrowFilters : Filters := { filters with only := [str "GetVersion"], grep := str "x" }

def narrowSession : Session := { session (table [4]) with filters := narrowFilters }

def versionEntry : List Record := (Machine.run narrowSession .all [.enter 1 0 plainHit]).ring

/-- Two commands between the checks of one event: the line is printed, though
the filters want it at no moment of the order in which they are typed. -/
example :
    (raced narrowSession (versionEntry.flatMap (fun r => [.begin r,
      .command (str "only FindClass"), .command (str "grep Version"), .finish]))
      ).result.output.stdout.length = 1 ∧
    ∀ n : Fin 3, (Loader.after narrowSession (inForce narrowFilters
      (([str "only FindClass", str "grep Version"].take n).map .command ++
        versionEntry.map .work))).output.stdout = [] := by
  decide +kernel

end Scenario

end JniProbe
