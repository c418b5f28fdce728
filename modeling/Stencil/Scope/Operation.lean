import Stencil.Scope.Reference

/-!
# Operations on a tracker

What can be asked of a tracker, as data, so that a sequence of operations is a list. Some operations
open or close a block, and the others ask for a name or check the blocks. A sequence goes on after
an error, with the tracker as the error leaves it.
-/

namespace Stencil.Tracker

inductive Operation where
  | enter
  | exit (position : Option Int)
  | hideOpen
  | hideClose (position : Option Int)
  | reset
  | checkBalance
  | resolve (expression : Text)
  | model
  | key
deriving DecidableEq, Repr

namespace Operation

/-- What an operation gives, with a text if it asks for one. -/
def run (s : Settings) (t : Tracker) : Operation → Step (Option Text)
  | enter => (Tracker.enter s t).map some
  | exit position => (Tracker.exit s position t).map some
  | hideOpen => (Tracker.hideOpen t).map fun _ => none
  | hideClose position => (Tracker.hideClose s position t).map fun _ => none
  | reset => ⟨.ok none, {}, []⟩
  | checkBalance => (Tracker.checkBalance s t).map fun _ => none
  | resolve expression => ⟨.ok (some (s.reference t.depth expression)), t, []⟩
  | model => ⟨.ok (some (s.model t.depth)), t, []⟩
  | key => ⟨.ok (some (s.key t.depth)), t, []⟩

def trackerAfter (s : Settings) (operations : List Operation) (t : Tracker) : Tracker :=
  operations.foldl (fun t operation => (operation.run s t).tracker) t

end Operation

end Stencil.Tracker
