import Stencil.Text.Basic

/-!
# The log

What a compilation reports while it runs. Every trace entry carries the level at which it is made,
so a run makes the same entries whatever its verbosity, and the verbosity only selects among them:
entries up to its level are shown, and errors always are.
-/

namespace Stencil

namespace Log

inductive Entry where
  /-- A remark, shown from the given verbosity on. -/
  | trace (level : Int) (message : Text)
  /-- An error, and the name of the failure that was being handled, if there was one. -/
  | error (message : Text) (cause : Option Text)
deriving DecidableEq, Repr

/-- Whether a listener that admits certain levels is shown the entry. -/
def Entry.isShown (admits : Int → Bool) : Entry → Bool
  | .trace level _ => admits level
  | .error _ _ => true

end Log

/-- The entries of a run, in the order in which they were made. -/
abbrev Log := List Log.Entry

namespace Log

def shown (verbosity : Int) (log : Log) : Log :=
  log.filter (Entry.isShown fun level => level ≤ verbosity)

def errors (log : Log) : Log :=
  log.filter fun | .error _ _ => true | .trace _ _ => false

@[simp] theorem shown_nil (verbosity : Int) : shown verbosity [] = [] := rfl

@[simp] theorem shown_append (verbosity : Int) (a b : Log) :
    shown verbosity (a ++ b) = shown verbosity a ++ shown verbosity b := by
  simp [shown]

/-- A quieter listener is shown a part of what a louder one is. -/
theorem shown_shown {low high : Int} (h : low ≤ high) (log : Log) :
    shown low (shown high log) = shown low log := by
  simp only [shown, List.filter_filter]
  congr 1
  funext entry
  cases entry <;> simp [Entry.isShown]
  omega

end Log

end Stencil
