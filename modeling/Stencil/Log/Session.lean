import Stencil.Json.Order
import Stencil.Log.Entry

/-!
# Listening to the log

Listeners are connected one inside another, and the latest decides what is shown. A listener
without a verbosity is shown no remark. When nobody listens, only errors are shown. A verbosity
that cannot be compared with levels comes to light with the first remark.
-/

namespace Stencil.Log

/-- The connected listeners, the latest first, each with its verbosity if it has one. -/
structure Session where
  listeners : List (Option Json) := []

namespace Session

def connect (verbosity : Option Json) (s : Session) : Session := ⟨verbosity :: s.listeners⟩

/-- Disconnects the latest listener. -/
def disconnect (s : Session) : Session := ⟨s.listeners.tail⟩

/-- Whether remarks of a level are shown, if that can be told. -/
def admits? (s : Session) (level : Json) : Option Bool :=
  match s.listeners with
  | some verbosity :: _ => verbosity.atLeast? level
  | _ => some false

/-- What is shown of a remark, if that can be told. -/
def remark? (s : Session) (level : Json) (message : Text) : Option (List Text) :=
  (s.admits? level).map fun isShown => if isShown then [message] else []

def shows? (s : Session) : Entry → Option Bool
  | .trace level _ => s.admits? (.int level)
  | .error _ _ => some true

def shown? (s : Session) : Log → Option Log
  | [] => some []
  | entry :: log =>
    (s.shows? entry).bind fun isShown =>
      (s.shown? log).map fun rest => if isShown then entry :: rest else rest

@[simp] theorem disconnect_connect (verbosity : Option Json) (s : Session) :
    (s.connect verbosity).disconnect = s := rfl

/-- An entry is shown to a listener with an integer verbosity if a run at that verbosity shows
it. -/
theorem shows?_connect_int (verbosity : Int) (s : Session) (entry : Entry) :
    (s.connect (some (.int verbosity))).shows? entry =
      some (entry.isShown fun level => level ≤ verbosity) := by
  cases entry <;> simp [shows?, admits?, connect, Entry.isShown]

theorem shown?_connect_int (verbosity : Int) (s : Session) (log : Log) :
    (s.connect (some (.int verbosity))).shown? log = some (Log.shown verbosity log) := by
  induction log with
  | nil => rfl
  | cons entry log ih =>
    simp [shown?, ih, shows?_connect_int, Log.shown, List.filter_cons]

end Session

end Stencil.Log
