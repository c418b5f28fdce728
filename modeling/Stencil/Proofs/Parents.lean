import Mathlib.Data.List.Basic
import Stencil.Scope.Operation

/-!
# Parent markers and scopes

A parent marker in front of an expression takes back one scope. Inside one more scope it leads to
the code that the expression has outside, and at the root, where there is no scope to take back, it
changes nothing. Every expression has some parent markers at its front and a path behind them that
begins with none, in one way only, and its code reads this path in the model of the scope that the
markers lead to.
-/

namespace Stencil

/-- An expression leads a number of scopes outwards and goes on with a path. -/
def Ascends (e : Text) (n : Nat) (path : Text) : Prop :=
  e = (List.replicate n "../".toList).flatten ++ path ∧ ¬"../".toList <+: path

private theorem splitParents_of_not_marker {path : Text} (h : ¬"../".toList <+: path) :
    splitParents path = (0, path) := by
  rw [splitParents]
  intro r hr
  exact h ⟨r, hr.symm⟩

private theorem not_marker_splitParents (e : Text) : ¬"../".toList <+: (splitParents e).2 := by
  fun_induction splitParents e with
  | case1 r ih => exact ih
  | case2 path hno =>
      rintro ⟨r, hr⟩
      exact hno r hr.symm

theorem splitParents_append (n : Nat) (e : Text) :
    splitParents ((List.replicate n "../".toList).flatten ++ e) =
      (n + (splitParents e).1, (splitParents e).2) := by
  induction n with
  | zero => rw [Nat.zero_add]; rfl
  | succ n ih =>
      rw [List.replicate_succ, List.flatten_cons, List.append_assoc]
      change splitParents ('.' :: '.' :: '/' :: ((List.replicate n "../".toList).flatten ++ e)) = _
      rw [splitParents_marker, ih, Nat.add_right_comm]

theorem ascends_iff {e path : Text} {n : Nat} : Ascends e n path ↔ splitParents e = (n, path) := by
  constructor
  · rintro ⟨rfl, hpath⟩
    rw [splitParents_append, splitParents_of_not_marker hpath, Nat.add_zero]
  · intro h
    have heq := eq_of_splitParents e
    have hpath := not_marker_splitParents e
    rw [h] at heq hpath
    exact ⟨heq, hpath⟩

/-- Parent markers take back scopes, as many as there are. -/
theorem Settings.reference_append (s : Settings) (depth n : Nat) (e : Text) :
    s.reference depth ((List.replicate n "../".toList).flatten ++ e) =
      s.reference (depth - n) e := by
  change s.member (depth - (splitParents _).1) (splitParents _).2 =
    s.member (depth - n - (splitParents e).1) (splitParents e).2
  rw [splitParents_append, Nat.sub_add_eq]

theorem Settings.reference_of_ascends {e path : Text} {n : Nat} (h : Ascends e n path)
    (s : Settings) (depth : Nat) : s.reference depth e = s.member (depth - n) path := by
  change s.member (depth - (splitParents e).1) (splitParents e).2 = _
  rw [ascends_iff.1 h]

namespace Tracker.Operation

/-- A marker and a scope cancel each other. The code of an expression, which a tracker gives without
a change or a remark, reads the path behind the markers in the model they lead to. -/
theorem run_resolve_parents (s : Settings) (t : Tracker) (blocks : List Block) (e : Text) :
    (run s ⟨t.depth + 1, blocks⟩ (resolve ("../".toList ++ e))).result =
        (run s t (resolve e)).result ∧
      (run s ⟨0, blocks⟩ (resolve ("../".toList ++ e))).result =
        (run s ⟨0, t.blocks⟩ (resolve e)).result ∧
      (∃! p : Nat × Text, Ascends e p.1 p.2) ∧
      ∀ n path, Ascends e n path →
        run s t (resolve e) = ⟨.ok (some (if path = "this".toList
            then Settings.identifier s.modelName (max (t.depth - n : Int) 0)
            else Settings.identifier s.modelName (max (t.depth - n : Int) 0) ++ '.' :: path)),
          t, []⟩ := by
  have hmarker (depth : Nat) :
      s.reference depth ("../".toList ++ e) = s.reference (depth - 1) e :=
    s.reference_append depth 1 e
  refine ⟨?_, ?_, ?_, ?_⟩
  · rw [run, run, hmarker, Nat.add_sub_cancel]
  · rw [run, run, hmarker]
    rfl
  · refine ⟨splitParents e, ascends_iff.2 rfl, ?_⟩
    intro p hp
    exact (ascends_iff.1 hp).symm
  · intro n path h
    have hdepth : ((t.depth - n : Nat) : Int) = max (t.depth - n : Int) 0 := by omega
    rw [run, Settings.reference_of_ascends h, Settings.member, Settings.model, hdepth]

/-- More markers than scopes lead to the root, and a later marker belongs to the path. -/
theorem run_resolve_parents_later_marker :
    Ascends "../../../a/../b".toList 3 "a/../b".toList ∧
      run {} ⟨2, [.hide, .each, .each]⟩ (resolve "../../../a/../b".toList) =
        ⟨.ok (some "m0.a/../b".toList), ⟨2, [.hide, .each, .each]⟩, []⟩ := by
  have hascends : Ascends "../../../a/../b".toList 3 "a/../b".toList := ⟨rfl, by decide⟩
  obtain ⟨-, -, -, hcode⟩ :=
    run_resolve_parents {} ⟨2, [.hide, .each, .each]⟩ [] "../../../a/../b".toList
  exact ⟨hascends, hcode 3 "a/../b".toList hascends⟩

end Tracker.Operation

end Stencil
