import Stencil.Log.Session
import Stencil.Scope.Tracker

/-!
# Listening to operations

An operation reports to its listener while it runs. If the listener cannot tell whether an entry
is to be shown, the operation stops there, and the tracker stays as it is at that moment. To a
listener with an integer verbosity this does not happen.
-/

namespace Stencil

structure Heard (α : Type) where
  /-- The result, unless the operation was stopped. -/
  result : Option (Except Unbalanced α)
  tracker : Tracker
  log : Log

namespace Log.Session

/-- What is shown of the entries up to the first that cannot be judged, and the tracker at the
moment of that one. -/
def hear (session : Session) : List Moment → Log × Option Tracker
  | [] => ([], none)
  | m :: ms =>
    match session.shows? m.entry with
    | some isShown =>
      let (log, stopped) := session.hear ms
      (if isShown then m.entry :: log else log, stopped)
    | none => ([], some m.tracker)

private theorem hear_connect_int (verbosity : Int) (s : Session) (moments : List Moment) :
    (s.connect (some (.int verbosity))).hear moments =
      (Log.shown verbosity (moments.map Moment.entry), none) := by
  induction moments with
  | nil => rfl
  | cons m ms ih => simp [hear, ih, shows?_connect_int, Log.shown, List.filter_cons]

end Log.Session

def Step.heardBy {α : Type} (session : Log.Session) (s : Step α) : Heard α :=
  match session.hear s.moments with
  | (log, none) => ⟨some s.result, s.tracker, log⟩
  | (log, some tracker) => ⟨none, tracker, log⟩

theorem Step.heardBy_connect_int {α : Type} (verbosity : Int) (session : Log.Session) (s : Step α) :
    s.heardBy (session.connect (some (.int verbosity))) =
      ⟨some s.result, s.tracker, Log.shown verbosity s.log⟩ := by
  simp [heardBy, Log.Session.hear_connect_int, Step.log]

end Stencil
