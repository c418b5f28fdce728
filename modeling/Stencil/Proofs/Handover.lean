import Stencil.Proofs.Completion

/-!
# What the minifier is handed

A compilation calls the minifier of the caller at most once, in the stage that minifies, and hands
it the trimmed template with its tags protected. Taking out tags could bring braces together, or
put open braces in front of a close, but the braces that are left are those that no tag was found
at, and a placeholder parts them where a tag was: the protected text has no tag. No other stage
logs an error, so the log has one if the minifier fails and none otherwise.
-/

namespace Stencil

/-! ### Protected text has no tag -/

namespace Placeholder.Format

variable {f : Format}

theorem hideTags_consLiteral (n : Nat) (c : Char) (ps : List Piece) :
    f.hideTags n (Piece.consLiteral c ps) = c :: f.hideTags n ps := by
  match ps with
  | [] | .literal _ :: _ | .tag _ :: _ => rfl

/-- The protected text begins with a brace only if the template does. -/
theorem head?_of_head?_hideTags {n : Nat} {s : Text}
    (h : (f.hideTags n (Piece.ofText s)).head? = some '{') : s.head? = some '{' := by
  fun_cases Piece.ofText s with
  | case1 | case2 => rfl
  | case3 c r hne =>
      rw [Piece.ofText, hideTags_consLiteral] at h
      · exact h
      · exact hne
  | case4 =>
      rw [Piece.ofText] at h
      cases h

/-- Where the tags were there are no braces, and the literal text before them has none that are
open. -/
theorem not_hasTag_hideTags (hf : f.IsForeign '{') (n : Nat) (s : Text) :
    ¬Piece.HasTag (f.hideTags n (Piece.ofText s)) := by
  fun_induction Piece.ofText s generalizing n with
  | case1 r inner rest hcut ih =>
      exact Piece.not_hasTag_append (hf.not_mem (f.isPlaceholder_make n)) (ih (n + 1))
  | case2 r hcut =>
      rintro ⟨before, inner, after, heq⟩
      refine Piece.not_closing_isInfix hcut ⟨before ++ Piece.opening ++ inner, after, ?_⟩
      rw [← heq]
      exact List.append_nil _
  | case3 c r hne ih =>
      rw [hideTags_consLiteral]
      refine Piece.not_hasTag_cons (ih n) ?_
      rintro rfl hhead
      obtain ⟨t, rfl⟩ := List.head?_eq_some_iff.1 (head?_of_head?_hideTags hhead)
      exact hne t rfl rfl
  | case4 => exact Piece.not_hasTag_of_not_mem (by simp [hideTags])

end Placeholder.Format

/-! ### The log of a compilation -/

namespace Log

@[simp] theorem errors_append (a b : Log) : errors (a ++ b) = errors a ++ errors b :=
  List.filter_append a b

@[simp] theorem errors_shown (verbosity : Int) (log : Log) :
    errors (shown verbosity log) = errors log := by
  rw [errors, shown, List.filter_filter]
  refine List.filter_congr fun entry _ => ?_
  cases entry <;> rfl

end Log

def Step.LogsNoError {α : Type} (s : Step α) : Prop := Log.errors s.log = []

namespace Step.LogsNoError

variable {α β : Type} {s : Step α}

theorem map (h : s.LogsNoError) (f : α → β) : (s.map f).LogsNoError := h

theorem andThen {next : α → Tracker → Step β} (h : s.LogsNoError)
    (hnext : ∀ a t, (next a t).LogsNoError) : (s.andThen next).LogsNoError := by
  obtain ⟨result, t, moments⟩ := s
  cases result with
  | error e => exact h
  | ok a =>
      rw [LogsNoError, andThen_ok, log_mk, List.map_append, Log.errors_append]
      exact List.append_eq_nil_iff.2 ⟨h, hnext a t⟩

end Step.LogsNoError

private theorem Tracker.close_logsNoError (s : Settings) (b : Block) (position : Option Int)
    (t : Tracker) : (close s b position t).LogsNoError := by
  rw [close]
  split
  · rfl
  · next cause _ =>
      split
      · rfl
      · obtain ⟨message, hmessage, -⟩ := isWarning_warning t b cause
        rw [hmessage]
        rfl

private theorem Directive.fragment_logsNoError (s : Settings) (d : Directive)
    (position : Option Int) (t : Tracker) : (d.fragment s position t).LogsNoError := by
  obtain ⟨kind, e⟩ := d
  cases kind with
  | each | hide | selectedIf | checkedIf | partialCall | key | interpolation => rfl
  | eachEnd =>
      have hexit : (Tracker.exit s position t).LogsNoError :=
        (Tracker.close_logsNoError s .each position t).andThen fun _ _ => rfl
      exact hexit.map _
  | hideEnd => exact (Tracker.close_logsNoError s .hide position t).map _

private theorem Segment.emitAll_logsNoError (s : Settings) (segments : List Segment) (t : Tracker) :
    (emitAll s segments t).LogsNoError := by
  induction segments generalizing t with
  | nil => rfl
  | cons segment segments ih =>
      have hfirst : (segment.emit s t).LogsNoError := by
        match segment with
        | literal _ _ => rfl
        | directive d place _ =>
            have hfragment := Directive.fragment_logsNoError s d (some place) t
            have hremark (fragment : Text) (t : Tracker) :
                (⟨.ok fragment, t, [⟨d.remark fragment, t⟩]⟩ : Step Text).LogsNoError := rfl
            exact hfragment.andThen hremark
      exact hfirst.andThen fun fragment t => (ih t).map (fragment :: ·)

namespace Stage

private theorem emitSegments_logsNoError (s : Settings) (segments : List Segment) (t : Tracker) :
    (emitSegments s segments t).LogsNoError := by
  refine (Segment.emitAll_logsNoError s segments t).andThen fun fragments t => ?_
  have hbalance : (Tracker.checkBalance s t).LogsNoError := by
    rw [Tracker.checkBalance]
    split_ifs <;> rfl
  exact hbalance.map _

theorem errors_log_run (c : Compiler) (d : Draft) (t : Tracker) (stage : Stage) :
    Log.errors (stage.run c d t).log = [] := by
  cases stage with
  | trim | escape | wrap => rfl
  | minify =>
      rw [run, runMinify_eq]
      split_ifs <;> rfl
  | emit =>
      have hstep := emitSegments_logsNoError c.settings (Segment.scan d.escaped) t
      rw [run, runEmit]
      rcases hsegments : emitSegments c.settings (Segment.scan d.escaped) t with
        ⟨e | fragments, u, moments⟩
      · rw [hsegments] at hstep
        exact hstep
      · rw [hsegments] at hstep
        dsimp only
        rw [Log.errors_append]
        exact List.append_eq_nil_iff.2 ⟨hstep, rfl⟩

theorem errors_log_runAll (c : Compiler) (stages : List Stage) (d : Draft) (t : Tracker) :
    Log.errors (runAll c stages d t).log = [] := by
  induction stages generalizing d t with
  | nil => rfl
  | cons stage stages ih =>
      have hfirst := errors_log_run c d t stage
      rcases hrun : stage.run c d t with ⟨e | next, u, log, calls⟩
      · rw [hrun] at hfirst
        rw [runAll_of_error hrun]
        exact hfirst
      · rw [hrun] at hfirst
        rw [runAll_of_ok hrun, Log.errors_append]
        exact List.append_eq_nil_iff.2 ⟨hfirst, ih next u⟩

theorem result_runAll_eq_minification_iff (c : Compiler) (source : Text) (cause : Failure) :
    (runAll c all { source } {}).result = .error (.minification cause) ↔
      c.minified (Text.trim source) = .error (.minification cause) := by
  have hall := result_runAll_all c source
  constructor
  · intro h
    rw [h] at hall
    cases hminified : c.minified (Text.trim source) with
    | ok text =>
        rw [hminified] at hall
        exact absurd hall.symm (c.finished_ne_minification text cause)
    | error e =>
        rw [hminified] at hall
        exact hall.symm
  · intro h
    rw [h] at hall
    cases hresult : (runAll c all { source } {}).result with
    | ok d => rw [hresult] at hall; cases hall
    | error e =>
        rw [hresult] at hall
        rw [Except.error.inj hall]

/-! ### The calls of a compilation -/

/-- Only the stage that minifies calls the minifier. -/
theorem calls_runAll_of_not_mem {c : Compiler} {stages : List Stage} (h : minify ∉ stages)
    (d : Draft) (t : Tracker) : (runAll c stages d t).calls = [] := by
  induction stages generalizing d t with
  | nil => rfl
  | cons stage stages ih =>
      obtain ⟨hstage, hstages⟩ := not_or.1 (mt List.mem_cons.2 h)
      have hfirst : (stage.run c d t).calls = [] := by
        cases stage with
        | trim | escape | wrap => rfl
        | minify => exact absurd rfl hstage
        | emit =>
            rw [run, runEmit]
            split <;> rfl
      rcases hrun : stage.run c d t with ⟨e | next, u, log, calls⟩
      · rw [hrun] at hfirst
        rw [runAll_of_error hrun]
        exact hfirst
      · rw [hrun] at hfirst
        rw [runAll_of_ok hrun]
        exact List.append_eq_nil_iff.2 ⟨hfirst, ih hstages next u⟩

private theorem calls_runAll_all (c : Compiler) (source : Text) :
    (runAll c all { source } {}).calls =
      if c.options.wantsMinify (Text.trim source) then (c.answer (Text.trim source)).calls else [] := by
  have htrim : trim.run c { source } {} =
      ⟨.ok { source := Text.trim source }, {}, [sourceRemark (Text.trim source)], []⟩ := rfl
  have hminify : minify.run c { source := Text.trim source } {} = _ := runMinify_eq _ _ _
  rw [all, runAll_of_ok htrim, List.nil_append]
  cases hminified : c.minified (Text.trim source) with
  | error e =>
      rw [hminified] at hminify
      rw [runAll_of_error hminify]
  | ok text =>
      rw [hminified] at hminify
      rw [runAll_of_ok hminify, calls_runAll_of_not_mem (by decide), List.append_nil]

end Stage

namespace Compiler

theorem calls_compile (c : Compiler) (source : Text) :
    (c.compile source).calls =
      if c.options.wantsMinify (Text.trim source) then (c.answer (Text.trim source)).calls else [] := by
  rw [← Stage.calls_runAll_all, compile, run]
  obtain ⟨(_ | _ | _) | _, _, _, _⟩ := Stage.runAll c Stage.all { source } {} <;> rfl

/-- The log has an error if the minifier fails, and no other. -/
theorem errors_log_compile (c : Compiler) (source : Text) :
    (∀ cause, c.minified (Text.trim source) = .error (.minification cause) →
        Log.errors (c.compile source).log = [CompileError.minificationEntry cause]) ∧
      ((∀ cause, c.minified (Text.trim source) ≠ .error (.minification cause)) →
        Log.errors (c.compile source).log = []) := by
  have hlog := Stage.errors_log_runAll c Stage.all { source } {}
  have hfailure := Stage.result_runAll_eq_minification_iff c source
  revert hlog hfailure
  rw [compile, Log.errors_shown, run]
  obtain ⟨e | d, u, log, calls⟩ := Stage.runAll c Stage.all { source } {}
  · intro hlog hfailure
    cases e with
    | minification cause =>
        have hcause := (hfailure cause).1 rfl
        refine ⟨fun other hother => ?_, fun hne => absurd hcause (hne cause)⟩
        rw [hcause] at hother
        cases hother
        dsimp only at hlog ⊢
        rw [Log.errors_append, hlog]
        rfl
    | unbalanced e | unhandled e =>
        exact ⟨fun cause hcause => absurd ((hfailure cause).2 hcause) (by simp), fun _ => hlog⟩
  · intro hlog hfailure
    refine ⟨fun cause hcause => absurd ((hfailure cause).2 hcause) (by simp), fun _ => ?_⟩
    dsimp only at hlog ⊢
    rw [Log.errors_append, hlog]
    rfl

def handed (c : Compiler) (source : Text) : Text :=
  (c.settings.tagPlaceholders.protectTags (Text.trim source)).text

/-- The minifier is called, and it fails without being interrupted. -/
def FailsWith (c : Compiler) (f : External) (source : Text) (cause : Failure) : Prop :=
  c.options.wantsMinify (Text.trim source) = true ∧
    f (c.handed source) c.options.html.toObject = .error cause ∧ cause.isInterrupt = false

variable {c : Compiler} {f : External}

theorem minified_eq_minification_iff (hf : c.minifier = .supplied f) {source : Text}
    {cause : Failure} :
    c.minified (Text.trim source) = .error (.minification cause) ↔ c.FailsWith f source cause := by
  have hanswer : (c.answer (Text.trim source)).result =
      f (c.handed source) c.options.html.toObject := by
    rw [answer, hf]
    rfl
  rw [FailsWith]
  by_cases hwants : c.options.wantsMinify (Text.trim source) = true
  · cases hresult : f (c.handed source) c.options.html.toObject with
    | error other =>
        rw [minified_of_error hwants (hanswer.trans hresult), Stage.minifierError]
        constructor
        · intro h
          split at h
          · cases h
          · next hinterrupt =>
              cases h
              exact ⟨hwants, rfl, by simpa using hinterrupt⟩
        · rintro ⟨-, heq, hinterrupt⟩
          cases heq
          rw [hinterrupt]
          rfl
    | ok value =>
        rw [minified, if_pos hwants, hanswer, hresult]
        dsimp only
        constructor
        · intro h
          split at h <;> cases h
        · rintro ⟨-, heq, -⟩
          cases heq
  · simp [minified, hwants]

/-- What a supplied minifier is handed, and what becomes of its failure. -/
theorem compile_supplied (hs : c.settings.Admitted) (hf : c.minifier = .supplied f)
    (source : Text) :
    ¬Piece.HasTag (c.handed source) ∧
    (c.compile source).calls =
      (if c.options.wantsMinify (Text.trim source) then
        [⟨c.handed source, c.options.html.toObject⟩] else []) ∧
    (∀ cause, c.FailsWith f source cause →
      (c.compile source).result = .ok (errorCode c.settings) ∧
        Log.errors (c.compile source).log = [CompileError.minificationEntry cause]) ∧
    ((∀ cause, ¬c.FailsWith f source cause) → Log.errors (c.compile source).log = []) := by
  have hbrace : c.settings.tagPlaceholders.IsForeign '{' :=
    hs.isName_tags.isForeign (by decide) (by decide)
  obtain ⟨hfailed, hother⟩ := errors_log_compile c source
  refine ⟨Placeholder.Format.not_hasTag_hideTags hbrace 0 _, ?_, ?_, ?_⟩
  · rw [calls_compile, answer, hf]
    rfl
  · intro cause hcause
    have hminified := (minified_eq_minification_iff hf).2 hcause
    exact ⟨by rw [result_compile_eq, hminified], hfailed cause hminified⟩
  · intro hnone
    exact hother fun cause => mt (minified_eq_minification_iff hf).1 (hnone cause)

/-- A failure of the minifier hides that the blocks of the template do not nest. -/
theorem compile_supplied_strict :
    ({ strictScopes := true } : Settings).Admitted ∧
      (({ options := { minify := true }, settings := { strictScopes := true },
          minifier := .supplied fun _ _ => .error (.runtime "stopped".toList) } : Compiler).compile
        "\x7b\x7b/each\x7d\x7d".toList).result = .ok "function(m0)\x7breturn 'ERROR';\x7d".toList ∧
      Log.errors
        (({ options := { minify := true }, settings := { strictScopes := true },
            minifier := .supplied fun _ _ => .error (.runtime "stopped".toList) } : Compiler).compile
          "\x7b\x7b/each\x7d\x7d".toList).log =
          [.error "HTML minification failed: stopped".toList (some "MinifyFailure".toList)] := by
  have hs : ({ strictScopes := true } : Settings).Admitted := by decide
  exact ⟨hs, (compile_supplied hs rfl _).2.2.1 (.runtime "stopped".toList) ⟨rfl, rfl, rfl⟩⟩

end Compiler

end Stencil
