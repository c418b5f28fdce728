import Stencil.Scope.Tracker

/-!
# References

An expression is a path, read in the model of the scope it stands in. Each parent marker at its
front moves one scope outwards, and none moves beyond the root. The path `this` is the model
itself.
-/

namespace Stencil

/-- The number of parent markers at the front of an expression, and the path after them. -/
def splitParents : Text → Nat × Text
  | '.' :: '.' :: '/' :: r => ((splitParents r).1 + 1, (splitParents r).2)
  | path => (0, path)

/-- The code that reads a path in the model of a depth. -/
def Settings.member (s : Settings) (depth : Nat) (path : Text) : Text :=
  if path = "this".toList then s.model depth else s.model depth ++ '.' :: path

def Settings.reference (s : Settings) (depth : Nat) (expression : Text) : Text :=
  let (parents, path) := splitParents expression
  s.member (depth - parents) path

theorem splitParents_marker (e : Text) :
    splitParents ('.' :: '.' :: '/' :: e) = ((splitParents e).1 + 1, (splitParents e).2) := by
  rw [splitParents]

theorem eq_of_splitParents (e : Text) :
    e = (List.replicate (splitParents e).1 "../".toList).flatten ++ (splitParents e).2 := by
  fun_induction splitParents e with
  | case1 r ih =>
    simp only [List.replicate_succ, List.flatten_cons, List.append_assoc]
    rw [← ih]
    rfl
  | case2 => rfl

end Stencil
