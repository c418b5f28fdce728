import Stencil.Proofs.Emission
import Stencil.Proofs.Pieces

/-!
# Strict and permissive settings

Strict and permissive runs are in lockstep as long as every close meets the block that it closes.
The first close that does not is a fault of the template: strict settings end the run there, with
the place of the close, and permissive settings make a warning and go on. Without a fault both runs
reach the end with the same code and the same open blocks, and strict settings fail exactly if
blocks are open there, this time without a place. So strict settings accept the templates whose
blocks are well nested, and permissive settings warn about all others.
-/

namespace Stencil

/-! ### Faults -/

namespace Piece

/-- A tag closes a block that is not the innermost open one. -/
def IsMisplaced (before : List Piece) (inner : Text) : Prop :=
  ∃ b, (Directive.ofInner inner).kind.mark? = some (.closes b) ∧
    ¬Mark.IsInnermost (marks before) b

/-- The number of characters before the first tag that is misplaced. -/
def IsFirstFault (ps : List Piece) (place : Nat) : Prop :=
  ∃ before inner after, ps = before ++ tag inner :: after ∧ IsMisplaced before inner ∧
    (∀ front other behind, before = front ++ tag other :: behind → ¬IsMisplaced front other) ∧
    place = (before.flatMap text).length

theorem isMisplaced_iff {before : List Piece} {blocks : List Block} {inner : Text}
    (h : Mark.nestAll [] (marks before) = some blocks) :
    IsMisplaced before inner ↔
      ∃ b, (Directive.ofInner inner).kind.mark? = some (.closes b) ∧ blocks.head? ≠ some b := by
  simp only [IsMisplaced, isInnermost_iff h]

/-- No tag is misplaced exactly if the stack of open blocks can be run over the pieces. -/
theorem nestAll_eq_some_iff {ps : List Piece} :
    (∃ blocks, Mark.nestAll [] (marks ps) = some blocks) ↔
      ∀ before inner after, ps = before ++ tag inner :: after → ¬IsMisplaced before inner := by
  constructor
  · rintro ⟨blocks, hblocks⟩ before inner after rfl hfault
    obtain ⟨stack, hstack, hrest⟩ := nestAll_marks_append.1 hblocks
    obtain ⟨next, hnext, -⟩ := nestAll_marks_cons.1 hrest
    obtain ⟨b, hmark, hne⟩ := (isMisplaced_iff hstack).1 hfault
    rw [marks_tag, hmark] at hnext
    exact hne (Mark.nestAll_singleton_closes.1 hnext).1
  · intro h
    refine Option.ne_none_iff_exists'.1 fun hnone => ?_
    obtain ⟨before, inner, after, b, stack, hps, hmark, hstack, hne⟩ := exists_fault hnone
    exact h before inner after hps ((isMisplaced_iff hstack).2 ⟨b, hmark, hne⟩)

/-- What is known of the first fault: the tags before it are in order, and the innermost open block
is not of its kind. -/
theorem exists_of_isFirstFault {ps : List Piece} {place : Nat} (h : IsFirstFault ps place) :
    ∃ before inner after b blocks, ps = before ++ tag inner :: after ∧
      place = (before.flatMap text).length ∧
      (Directive.ofInner inner).kind.mark? = some (.closes b) ∧
      Mark.nestAll [] (marks before) = some blocks ∧ blocks.head? ≠ some b := by
  obtain ⟨before, inner, after, hps, hfault, hfirst, hplace⟩ := h
  obtain ⟨blocks, hblocks⟩ := nestAll_eq_some_iff.2 hfirst
  obtain ⟨b, hmark, hne⟩ := (isMisplaced_iff hblocks).1 hfault
  exact ⟨before, inner, after, b, blocks, hps, hplace, hmark, hblocks, hne⟩

theorem exists_isFirstFault {ps : List Piece} (h : Mark.nestAll [] (marks ps) = none) :
    ∃ place, IsFirstFault ps place := by
  obtain ⟨before, inner, after, b, blocks, hps, hmark, hblocks, hne⟩ := exists_fault h
  exact ⟨_, before, inner, after, hps, (isMisplaced_iff hblocks).2 ⟨b, hmark, hne⟩,
    nestAll_eq_some_iff.1 ⟨blocks, hblocks⟩, rfl⟩

end Piece

/-! ### What a misplaced tag does -/

namespace Step

variable {α β : Type} {s : Step α} {t : Tracker}

theorem result_andThen_of_error {e : Unbalanced} (h : s.result = .error e)
    (next : α → Tracker → Step β) : (s.andThen next).result = .error e := by
  rw [andThen, h]

private theorem result_map_of_error {e : Unbalanced} (h : s.result = .error e) (f : α → β) :
    (s.map f).result = .error e := by
  rw [map, h]
  rfl

theorem mem_log_andThen_left {entry : Log.Entry} (h : entry ∈ s.log)
    (next : α → Tracker → Step β) : entry ∈ (s.andThen next).log := by
  rw [andThen]
  split
  · exact h
  · rw [log_mk, List.map_append]
    exact List.mem_append_left _ h

end Step

namespace Directive

variable {s : Settings} {t : Tracker} {d : Directive} {b : Block} {position : Option Int}

private theorem fragment_strict (hs : s.strictScopes = true)
    (hmark : d.kind.mark? = some (.closes b)) (h : t.blocks.head? ≠ some b) :
    ∃ cause, (d.fragment s position t).result = .error ⟨cause, position⟩ := by
  obtain ⟨cause, hclose⟩ : ∃ cause, Tracker.close s b position t =
      ⟨.error ⟨cause, position⟩, t, []⟩ := Tracker.close_strict hs h
  obtain ⟨kind, e⟩ := d
  cases kind with
  | each | hide | selectedIf | checkedIf | partialCall | key | interpolation => cases hmark
  | eachEnd =>
      obtain rfl : .each = b := Mark.closes.inj (Option.some.inj hmark)
      refine ⟨cause, ?_⟩
      rw [fragment, Step.map, Tracker.exit, hclose]
      rfl
  | hideEnd =>
      obtain rfl : .hide = b := Mark.closes.inj (Option.some.inj hmark)
      refine ⟨cause, ?_⟩
      rw [fragment, Step.map, Tracker.hideClose, hclose]
      rfl

private theorem fragment_permissive (hs : s.strictScopes = false)
    (hmark : d.kind.mark? = some (.closes b)) (h : t.blocks.head? ≠ some b) :
    ∃ cause, Tracker.warning t b cause ∈ (d.fragment s position t).log := by
  obtain ⟨cause, hclose⟩ : ∃ cause, Tracker.close s b position t = _ :=
    Tracker.close_permissive hs h
  obtain ⟨kind, e⟩ := d
  cases kind with
  | each | hide | selectedIf | checkedIf | partialCall | key | interpolation => cases hmark
  | eachEnd =>
      obtain rfl : .each = b := Mark.closes.inj (Option.some.inj hmark)
      refine ⟨cause, ?_⟩
      rw [fragment, Step.log_map, Tracker.exit, hclose]
      exact List.mem_cons_self
  | hideEnd =>
      obtain rfl : .hide = b := Mark.closes.inj (Option.some.inj hmark)
      refine ⟨cause, ?_⟩
      rw [fragment, Step.log_map, Tracker.hideClose, hclose]
      exact List.mem_cons_self

end Directive

/-! ### Runs over pieces with a fault -/

namespace Piece

variable {s : Settings} {ps : List Piece} {place : Nat}

private theorem result_emitAll_of_isFirstFault (hs : s.strictScopes = true)
    (h : IsFirstFault ps place) : ∃ cause, (Segment.emitAll s (Segment.locate 0 ps) {}).result
      = .error ⟨cause, some (place : Int)⟩ := by
  obtain ⟨before, inner, after, b, blocks, rfl, rfl, hmark, hblocks, hne⟩ :=
    exists_of_isFirstFault h
  let t : Tracker := ⟨(marks before).foldl Mark.depthAfter 0, blocks⟩
  have hbefore : (Segment.emitAll s (Segment.locate 0 before) {}).Yields _ t :=
    emitAll_yields 0 hblocks
  obtain ⟨cause, hfragment⟩ : ∃ cause,
      ((Directive.ofInner inner).fragment s (some (before.flatMap text).length) t).result
        = .error ⟨cause, some (before.flatMap text).length⟩ :=
    Directive.fragment_strict hs hmark hne
  refine ⟨cause, ?_⟩
  rw [Segment.locate_append, Segment.emitAll_append, hbefore.result_andThen]
  refine Step.result_map_of_error (Step.result_andThen_of_error ?_ _) _
  refine Step.result_andThen_of_error ?_ _
  rw [Nat.zero_add]
  exact hfragment

private theorem mem_log_emitAll_of_isFirstFault (hs : s.strictScopes = false)
    (h : IsFirstFault ps place) :
    ∃ t b cause, Tracker.warning t b cause ∈ (Segment.emitAll s (Segment.locate 0 ps) {}).log := by
  obtain ⟨before, inner, after, b, blocks, rfl, rfl, hmark, hblocks, hne⟩ :=
    exists_of_isFirstFault h
  let t : Tracker := ⟨(marks before).foldl Mark.depthAfter 0, blocks⟩
  have hbefore : (Segment.emitAll s (Segment.locate 0 before) {}).Yields _ t :=
    emitAll_yields 0 hblocks
  obtain ⟨cause, hfragment⟩ : ∃ cause, Tracker.warning t b cause ∈
      ((Directive.ofInner inner).fragment s (some (before.flatMap text).length) t).log :=
    Directive.fragment_permissive hs hmark hne
  refine ⟨t, b, cause, ?_⟩
  rw [Segment.locate_append, Segment.emitAll_append, Nat.zero_add]
  refine hbefore.mem_log_andThen ?_
  rw [Step.log_map]
  refine Step.mem_log_andThen_left ?_ _
  exact Step.mem_log_andThen_left hfragment _

end Piece

/-! ### Compilations -/

namespace Compiler

variable {c : Compiler} {source : Text}

def withStrict (c : Compiler) (isStrict : Bool) : Compiler :=
  { c with settings := { c.settings with strictScopes := isStrict } }

theorem exists_result_emission_of_isFirstFault (c : Compiler) {place : Nat}
    (h : Piece.IsFirstFault (Piece.ofSource source) place) :
    ∃ cause, ((c.withStrict true).emission source).result = .error ⟨cause, some place⟩ := by
  obtain ⟨cause, hresult⟩ :=
    Piece.result_emitAll_of_isFirstFault (s := (c.withStrict true).settings) rfl h
  exact ⟨cause, Step.result_andThen_of_error hresult _⟩

theorem exists_result_emission_of_unclosed (c : Compiler) {b : Block} {blocks : List Block}
    (h : Mark.nestAll [] (Piece.marks (Piece.ofSource source)) = some (b :: blocks)) :
    ∃ cause, ((c.withStrict true).emission source).result = .error ⟨cause, none⟩ := by
  have hpieces := Piece.emitAll_yields (s := (c.withStrict true).settings) (t := {}) 0 h
  refine ⟨.unclosed (b :: blocks).reverse, ?_⟩
  rw [emission, Stage.emitSegments, hpieces.result_andThen]
  rfl

theorem exists_warning_emission (c : Compiler)
    (h : ¬WellNested (Piece.marks (Piece.ofSource source))) :
    ∃ message, .trace 2 message ∈ ((c.withStrict false).emission source).log ∧
      (Log.Entry.trace 2 message).IsWarning := by
  match hnest : Mark.nestAll [] (Piece.marks (Piece.ofSource source)) with
  | none =>
      obtain ⟨place, hfault⟩ := Piece.exists_isFirstFault hnest
      obtain ⟨t, b, cause, hmem⟩ :=
        Piece.mem_log_emitAll_of_isFirstFault (s := (c.withStrict false).settings) rfl hfault
      obtain ⟨message, heq, hwarning⟩ := Tracker.isWarning_warning t b cause
      rw [heq] at hmem hwarning
      exact ⟨message, Step.mem_log_andThen_left hmem _, hwarning⟩
  | some [] => exact absurd (wellNested_iff_nestAll.2 hnest) h
  | some (b :: blocks) =>
      have hpieces := Piece.emitAll_yields (s := (c.withStrict false).settings) (t := {}) 0 hnest
      obtain ⟨message, heq, hwarning⟩ := Tracker.isWarning_unclosedWarning
        ⟨(Piece.marks (Piece.ofSource source)).foldl Mark.depthAfter 0, b :: blocks⟩
      rw [heq] at hwarning
      refine ⟨message, hpieces.mem_log_andThen ?_, hwarning⟩
      rw [← heq]
      exact List.mem_cons_self

theorem exists_result_emission_iff (c : Compiler) :
    (∃ e, ((c.withStrict true).emission source).result = .error e) ↔
      ¬WellNested (Piece.marks (Piece.ofSource source)) := by
  constructor
  · rintro ⟨e, he⟩ hnested
    rw [(emission_yields (c := c.withStrict true) hnested).result_eq] at he
    cases he
  · intro h
    match hnest : Mark.nestAll [] (Piece.marks (Piece.ofSource source)) with
    | none =>
        obtain ⟨place, hfault⟩ := Piece.exists_isFirstFault hnest
        obtain ⟨cause, hresult⟩ := exists_result_emission_of_isFirstFault c hfault
        exact ⟨_, hresult⟩
    | some [] => exact absurd (wellNested_iff_nestAll.2 hnest) h
    | some (b :: blocks) =>
        obtain ⟨cause, hresult⟩ := exists_result_emission_of_unclosed c hnest
        exact ⟨_, hresult⟩

/-- The place in an error is the one of the first fault, and there is none without a fault. -/
theorem position_of_result_emission {e : Unbalanced}
    (h : ((c.withStrict true).emission source).result = .error e) :
    (∃ place, Piece.IsFirstFault (Piece.ofSource source) place ∧ e.position = some (place : Int)) ∨
      (∃ blocks, Mark.nestAll [] (Piece.marks (Piece.ofSource source)) = some blocks) ∧
        e.position = none := by
  match hnest : Mark.nestAll [] (Piece.marks (Piece.ofSource source)) with
  | none =>
      obtain ⟨place, hfault⟩ := Piece.exists_isFirstFault hnest
      obtain ⟨cause, hresult⟩ := exists_result_emission_of_isFirstFault c hfault
      rw [h] at hresult
      exact .inl ⟨place, hfault, by rw [Except.error.inj hresult]⟩
  | some [] =>
      exact absurd (wellNested_iff_nestAll.2 hnest) ((exists_result_emission_iff c).1 ⟨e, h⟩)
  | some (b :: blocks) =>
      obtain ⟨cause, hresult⟩ := exists_result_emission_of_unclosed c hnest
      rw [h] at hresult
      exact .inr ⟨⟨_, rfl⟩, by rw [Except.error.inj hresult]⟩

theorem position_eq_some_iff {e : Unbalanced}
    (h : ((c.withStrict true).emission source).result = .error e) (position : Int) :
    e.position = some position ↔
      ∃ place : Nat, Piece.IsFirstFault (Piece.ofSource source) place ∧ position = place := by
  constructor
  · intro hposition
    rcases position_of_result_emission h with ⟨place, hfault, heq⟩ | ⟨-, heq⟩
    · exact ⟨place, hfault, Option.some.inj (hposition.symm.trans heq)⟩
    · rw [heq] at hposition
      cases hposition
  · rintro ⟨place, hfault, rfl⟩
    obtain ⟨cause, hresult⟩ := exists_result_emission_of_isFirstFault c hfault
    rw [h] at hresult
    rw [Except.error.inj hresult]

theorem position_eq_none_iff {e : Unbalanced}
    (h : ((c.withStrict true).emission source).result = .error e) :
    e.position = none ↔ ∀ before inner after,
      Piece.ofSource source = before ++ .tag inner :: after → ¬Piece.IsMisplaced before inner := by
  rw [← Piece.nestAll_eq_some_iff]
  rcases position_of_result_emission h with ⟨place, hfault, heq⟩ | ⟨hblocks, heq⟩
  · rw [heq]
    refine iff_of_false (by simp) fun hblocks => ?_
    obtain ⟨before, inner, after, hps, hmisplaced, -⟩ := hfault
    exact Piece.nestAll_eq_some_iff.1 hblocks before inner after hps hmisplaced
  · exact iff_of_true heq hblocks

theorem result_compile_eq_error_iff {e : Unbalanced}
    (hminify : c.options.wantsMinify (Text.trim source) = false) :
    (c.compile source).result = .error (.unbalanced e) ↔
      (c.emission source).result = .error e := by
  rw [result_compile hminify]
  match (c.emission source).result with
  | .error f => simp
  | .ok fragments => simp

theorem result_compile_withStrict (c : Compiler) (isStrict : Bool)
    (hminify : c.options.wantsMinify (Text.trim source) = false)
    (hnested : WellNested (Piece.marks (Piece.ofSource source))) :
    ((c.withStrict isStrict).compile source).result =
      .ok (c.wrapped (Piece.codeAll c.settings 0 (Piece.ofSource source)).code) := by
  have hcode := Piece.codeAll_withStrict c.settings isStrict 0 (Piece.ofSource source)
  rw [← hcode]
  exact result_compile_of_wellNested (c := c.withStrict isStrict) hminify hnested

theorem exists_warning_compile_iff (c : Compiler)
    (hminify : c.options.wantsMinify (Text.trim source) = false)
    (hverbosity : 2 ≤ c.settings.verbosity) :
    (∃ entry ∈ ((c.withStrict false).compile source).log, entry.IsWarning) ↔
      ¬WellNested (Piece.marks (Piece.ofSource source)) := by
  constructor
  · rintro ⟨entry, hentry, hwarning⟩ hnested
    have hmem := (mem_log_compile (c := c.withStrict false) hminify hwarning).1 hentry
    exact (emission_yields (c := c.withStrict false) hnested).quiet entry hmem.1 hwarning
  · intro hnested
    obtain ⟨message, hmem, hwarning⟩ := exists_warning_emission c hnested
    refine ⟨_, (mem_log_compile (c := c.withStrict false) hminify hwarning).2 ⟨hmem, ?_⟩, hwarning⟩
    exact decide_eq_true hverbosity

/-- Strict settings refuse a template exactly if its blocks are not well nested, with the place of
the first close that does not meet the innermost open block, if there is one. A template that they
accept has the same code under permissive settings, and one that they refuse has a warning in the
permissive log. -/
theorem compile_strict_permissive (c : Compiler) {source : Text}
    (hminify : c.options.wantsMinify (Text.trim source) = false) :
    ((∃ e, ((c.withStrict true).compile source).result = .error (.unbalanced e)) ↔
        ¬WellNested (Piece.marks (Piece.ofSource source))) ∧
      (∀ e, ((c.withStrict true).compile source).result = .error (.unbalanced e) →
        (∀ position, e.position = some position ↔
          ∃ place : Nat, Piece.IsFirstFault (Piece.ofSource source) place ∧ position = place) ∧
        (e.position = none ↔ ∀ before inner after,
          Piece.ofSource source = before ++ .tag inner :: after →
            ¬Piece.IsMisplaced before inner)) ∧
      ((¬∃ e, ((c.withStrict true).compile source).result = .error (.unbalanced e)) →
        ∃ code, ((c.withStrict true).compile source).result = .ok code ∧
          ((c.withStrict false).compile source).result = .ok code) ∧
      (2 ≤ c.settings.verbosity →
        ((∃ entry ∈ ((c.withStrict false).compile source).log, entry.IsWarning) ↔
          ∃ e, ((c.withStrict true).compile source).result = .error (.unbalanced e))) := by
  have hstrict : ∀ e, ((c.withStrict true).compile source).result = .error (.unbalanced e) ↔
      ((c.withStrict true).emission source).result = .error e :=
    fun e => result_compile_eq_error_iff (c := c.withStrict true) hminify
  have hrefuses : (∃ e, ((c.withStrict true).compile source).result = .error (.unbalanced e)) ↔
      ¬WellNested (Piece.marks (Piece.ofSource source)) :=
    (exists_congr hstrict).trans (exists_result_emission_iff c)
  refine ⟨hrefuses, fun e he => ?_, fun haccepts => ?_, fun hverbosity => ?_⟩
  · exact ⟨position_eq_some_iff ((hstrict e).1 he), position_eq_none_iff ((hstrict e).1 he)⟩
  · have hnested := not_not.1 (mt hrefuses.2 haccepts)
    exact ⟨_, result_compile_withStrict c true hminify hnested,
      result_compile_withStrict c false hminify hnested⟩
  · exact (exists_warning_compile_iff c hminify hverbosity).trans hrefuses.symm

/-- A close of the other kind is refused at its place. -/
theorem compile_strict_crossing :
    ({} : Options).wantsMinify (Text.trim "\x7b\x7b#each a\x7d\x7d\x7b\x7b/hide\x7d\x7d".toList)
        = false ∧
      ∃ e, ((({ minifier := .keep } : Compiler).withStrict true).compile
          "\x7b\x7b#each a\x7d\x7d\x7b\x7b/hide\x7d\x7d".toList).result
            = .error (.unbalanced e) ∧
        e.position = some 11 := by
  have hminify : ({} : Options).wantsMinify
      (Text.trim "\x7b\x7b#each a\x7d\x7d\x7b\x7b/hide\x7d\x7d".toList) = false := rfl
  have hsource : Piece.ofSource "\x7b\x7b#each a\x7d\x7d\x7b\x7b/hide\x7d\x7d".toList
      = [.tag "#each a".toList] ++ .tag "/hide".toList :: [] := by
    change Piece.ofText (Piece.opening ++ "#each a".toList ++ Piece.closing
      ++ (Piece.opening ++ "/hide".toList ++ Piece.closing ++ [])) = _
    rw [Piece.ofText_tag (by decide), Piece.ofText_tag (by decide), Piece.ofText]
    rfl
  have hopen : Mark.nestAll [] (Piece.marks [.tag "#each a".toList]) = some [.each] := rfl
  have hfault : Piece.IsFirstFault ([.tag "#each a".toList] ++ .tag "/hide".toList :: []) 11 :=
    ⟨_, _, _, rfl, (Piece.isMisplaced_iff hopen).2 ⟨.hide, rfl, by decide⟩,
      Piece.nestAll_eq_some_iff.1 ⟨_, hopen⟩, rfl⟩
  obtain ⟨hrefuses, hplace, -, -⟩ := compile_strict_permissive { minifier := .keep } hminify
  rw [hsource] at hrefuses hplace
  have hnested : ¬WellNested
      (Piece.marks ([.tag "#each a".toList] ++ .tag "/hide".toList :: [])) := by
    rw [wellNested_iff_nestAll]
    decide
  obtain ⟨e, he⟩ := hrefuses.2 hnested
  exact ⟨hminify, e, he, ((hplace e he).1 11).2 ⟨11, hfault, rfl⟩⟩

end Compiler

end Stencil
