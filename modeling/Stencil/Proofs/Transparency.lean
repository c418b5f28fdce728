import Stencil.Proofs.Completion
import Stencil.Proofs.Tracking

/-!
# Hide blocks do not affect names

Whatever the order of opens and closes is, the code of a segment depends on the depth alone, if
there is code at all. A close that crosses other blocks or has no open block takes something else
from the stack than a close in order would, or nothing, but it counts the depth down all the same.
The stack only decides about warnings and refusals. Hide blocks do not count, so a run without them
has another stack and the same depth at every segment that is left.
-/

namespace Stencil

/-! ### Steps that gave a value -/

namespace Step

variable {α β : Type} {s : Step α} {b : β}

theorem of_result_andThen {next : α → Tracker → Step β} (h : (s.andThen next).result = .ok b) :
    ∃ a, s.result = .ok a ∧ (next a s.tracker).result = .ok b ∧
      (s.andThen next).tracker = (next a s.tracker).tracker := by
  obtain ⟨result, tracker, moments⟩ := s
  cases result with
  | error e => cases h
  | ok a => exact ⟨a, rfl, h, rfl⟩

theorem of_result_map {f : α → β} (h : (s.map f).result = .ok b) :
    ∃ a, s.result = .ok a ∧ f a = b := by
  obtain ⟨result, tracker, moments⟩ := s
  cases result with
  | error e => cases h
  | ok a => exact ⟨a, rfl, Except.ok.inj h⟩

end Step

variable {s : Settings} {t : Tracker} {position : Option Int}

theorem Tracker.depth_close (s : Settings) (b : Block) (position : Option Int) (t : Tracker) :
    (close s b position t).tracker.depth = t.depth := by
  rcases close_cases s b position t with ⟨moments, hclose, -⟩ | ⟨-, e, hclose⟩
  · rw [hclose]
  · rw [hclose]

/-- A directive that gives code gives that of the depth, in order or not. -/
theorem Directive.of_result_fragment {d : Directive} {fragment : Text}
    (h : (d.fragment s position t).result = .ok fragment) :
    fragment = d.code s t.depth ∧
      (d.fragment s position t).tracker.depth =
        d.kind.mark?.toList.foldl Mark.depthAfter t.depth := by
  obtain ⟨kind, e⟩ := d
  cases kind with
  | eachEnd =>
      obtain ⟨model, hexit, rfl⟩ := Step.of_result_map h
      obtain ⟨-, -, -, htracker⟩ := Step.of_result_andThen hexit
      refine ⟨rfl, ?_⟩
      change (Tracker.exit s position t).tracker.depth = _
      rw [Tracker.exit, htracker, Tracker.depth_close]
      rfl
  | hideEnd =>
      obtain ⟨-, -, rfl⟩ := Step.of_result_map h
      exact ⟨rfl, Tracker.depth_close s .hide position t⟩
  | each | hide | selectedIf | checkedIf | partialCall | key | interpolation =>
      exact ⟨(Except.ok.inj h).symm, rfl⟩

namespace Segment

theorem of_result_emit {segment : Segment} {fragment : Text}
    (h : (segment.emit s t).result = .ok fragment) :
    fragment = segment.code s t.depth ∧
      (segment.emit s t).tracker.depth = segment.depthAfter t.depth := by
  match segment with
  | literal _ _ => exact ⟨(Except.ok.inj h).symm, rfl⟩
  | directive d place text =>
      obtain ⟨a, hfragment, hremark, htracker⟩ := Step.of_result_andThen h
      obtain ⟨rfl, hdepth⟩ := Directive.of_result_fragment hfragment
      exact ⟨(Except.ok.inj hremark).symm, (congrArg Tracker.depth htracker).trans hdepth⟩

theorem of_result_emitAll {segments : List Segment} {fragments : Fragments}
    (h : (emitAll s segments t).result = .ok fragments) :
    fragments = codeAll s t.depth segments ∧
      (emitAll s segments t).tracker.depth = (marks segments).foldl Mark.depthAfter t.depth := by
  induction segments generalizing t fragments with
  | nil => exact ⟨(Except.ok.inj h).symm, rfl⟩
  | cons segment segments ih =>
      obtain ⟨fragment, hfirst, hrest, htracker⟩ := Step.of_result_andThen h
      obtain ⟨others, hothers, rfl⟩ := Step.of_result_map hrest
      obtain ⟨rfl, hdepth⟩ := of_result_emit hfirst
      obtain ⟨rfl, hlast⟩ := ih hothers
      rw [hdepth] at hlast ⊢
      rw [marks_cons, List.foldl_append]
      exact ⟨rfl, (congrArg Tracker.depth htracker).trans hlast⟩

theorem of_result_emitSegments {segments : List Segment} {fragments : Fragments}
    (h : (Stage.emitSegments s segments t).result = .ok fragments) :
    fragments = codeAll s t.depth segments := by
  obtain ⟨codes, hcodes, hbalance, -⟩ := Step.of_result_andThen h
  obtain ⟨-, -, rfl⟩ := Step.of_result_map hbalance
  exact (of_result_emitAll hcodes).1

theorem length_codeAll (s : Settings) (depth : Nat) (segments : List Segment) :
    (codeAll s depth segments).length = segments.length := by
  induction segments generalizing depth with
  | nil => rfl
  | cons segment segments ih => rw [codeAll, List.length_cons, ih, List.length_cons]

/-! ### Leaving segments out -/

section LeftOut

variable {p : Segment → Bool}
  (hp : ∀ segment depth, p segment = false → segment.depthAfter depth = depth)
include hp

/-- If the segments that are left out do not count, the others keep their code. -/
theorem codeAll_filter (depth : Nat) (segments : List Segment) :
    codeAll s depth (segments.filter p) =
      ((segments.zip (codeAll s depth segments)).filter fun x => p x.1).map Prod.snd := by
  induction segments generalizing depth with
  | nil => rfl
  | cons segment segments ih =>
      rw [codeAll, List.zip_cons_cons, List.filter_cons, List.filter_cons]
      cases hkept : p segment with
      | true => exact congrArg (segment.code s depth :: ·) (ih (segment.depthAfter depth))
      | false =>
          rw [hp segment depth hkept]
          exact ih depth

private theorem foldl_depthAfter_marks_filter (depth : Nat) (segments : List Segment) :
    (marks (segments.filter p)).foldl Mark.depthAfter depth =
      (marks segments).foldl Mark.depthAfter depth := by
  induction segments generalizing depth with
  | nil => rfl
  | cons segment segments ih =>
      rw [marks_cons segment segments, List.foldl_append]
      cases hkept : p segment with
      | true =>
          rw [List.filter_cons_of_pos hkept, marks_cons, List.foldl_append]
          exact ih _
      | false =>
          rw [List.filter_cons_of_neg (by simp [hkept]), ih]
          exact congrArg (List.foldl _ · _) (hp segment depth hkept).symm

end LeftOut

/-! ### Hide blocks -/

def isHide (segment : Segment) : Bool :=
  segment.mark? == some (.opens .hide) || segment.mark? == some (.closes .hide)

private theorem depthAfter_of_isHide {segment : Segment} (h : segment.isHide = true) (depth : Nat) :
    segment.depthAfter depth = depth := by
  rw [isHide, Bool.or_eq_true, beq_iff_eq, beq_iff_eq] at h
  rcases h with h | h
  · rw [depthAfter, h]
    rfl
  · rw [depthAfter, h]
    rfl

/-- Under permissive settings, whatever the order of opens and closes is, the other segments have
the same code without the hide blocks, and the depth at the end is the same. -/
theorem emitAll_filter_not_isHide (hs : s.strictScopes = false) (segments : List Segment)
    (t : Tracker) :
    ∃ fragments : Fragments,
      (emitAll s segments t).result = .ok fragments ∧
      fragments.length = segments.length ∧
      (emitAll s (segments.filter fun segment => !segment.isHide) t).result =
        .ok (((segments.zip fragments).filter fun x => !x.1.isHide).map Prod.snd) ∧
      (emitAll s (segments.filter fun segment => !segment.isHide) t).tracker.depth =
        (emitAll s segments t).tracker.depth := by
  have hsame (segment : Segment) (depth : Nat) (h : (!segment.isHide) = false) :
      segment.depthAfter depth = depth :=
    depthAfter_of_isHide (by simpa using h) depth
  obtain ⟨fragments, hall⟩ := emitAll_succeeds hs segments t
  obtain ⟨others, hfiltered⟩ := emitAll_succeeds hs (segments.filter fun x => !x.isHide) t
  obtain ⟨rfl, hdepth⟩ := of_result_emitAll hall
  obtain ⟨rfl, hfilteredDepth⟩ := of_result_emitAll hfiltered
  refine ⟨_, hall, length_codeAll s t.depth segments, ?_, ?_⟩
  · rw [hfiltered, codeAll_filter hsame]
  · rw [hdepth, hfilteredDepth, foldl_depthAfter_marks_filter hsame]

/-- An each block is closed across a hide block, and a hide block is closed that is not open. -/
theorem emitAll_filter_not_isHide_crossing :
    ({} : Settings).strictScopes = false ∧
      ∃ each hide eachEnd key hideEnd again : Text,
        (emitAll {} (locate 0 [.tag "#each a".toList, .tag "#hide b".toList, .tag "/each".toList,
            .tag "@key".toList, .tag "/hide".toList, .tag "/hide".toList]) {}).result =
          .ok [each, hide, eachEnd, key, hideEnd, again] ∧
        (emitAll {} [.directive ⟨.each, "a".toList⟩ 0 "\x7b\x7b#each a\x7d\x7d".toList,
            .directive ⟨.eachEnd, []⟩ 22 "\x7b\x7b/each\x7d\x7d".toList,
            .directive ⟨.key, []⟩ 31 "\x7b\x7b@key\x7d\x7d".toList] {}).result =
          .ok [each, eachEnd, key] := by
  obtain ⟨fragments, hall, hlength, hfiltered, -⟩ :=
    emitAll_filter_not_isHide (s := {}) rfl (locate 0 [.tag "#each a".toList,
      .tag "#hide b".toList, .tag "/each".toList, .tag "@key".toList, .tag "/hide".toList,
      .tag "/hide".toList]) {}
  match fragments, hlength with
  | [each, hide, eachEnd, key, hideEnd, again], _ =>
      exact ⟨rfl, each, hide, eachEnd, key, hideEnd, again, hall, hfiltered⟩

end Segment

end Stencil
