import Stencil.Proofs.Emission
import Stencil.Proofs.Pieces
import Stencil.Proofs.Placeholders

/-!
# How a compilation ends

A compilation is a function of the template as it stands after the stage that minifies it. If that
stage gives a text, the text is turned into code. If the minifier fails, the code is the function
that says so. Permissive settings turn every text into code, so under them only the stage that
minifies can end a compilation without code, and it does so in one case: the minified text has a
placeholder with more digits than are read.
-/

namespace Stencil

/-! ### Operations that give a value -/

def Step.Succeeds {α : Type} (s : Step α) : Prop := ∃ a, s.result = .ok a

namespace Step.Succeeds

variable {α β : Type} {s : Step α}

theorem map (h : s.Succeeds) (f : α → β) : (s.map f).Succeeds := by
  obtain ⟨a, ha⟩ := h
  exact ⟨f a, by rw [Step.map, ha]; rfl⟩

theorem andThen {next : α → Tracker → Step β} (h : s.Succeeds)
    (hnext : ∀ a t, (next a t).Succeeds) : (s.andThen next).Succeeds := by
  obtain ⟨a, ha⟩ := h
  obtain ⟨b, hb⟩ := hnext a s.tracker
  exact ⟨b, by rw [Step.andThen, ha]; exact hb⟩

end Step.Succeeds

section Permissive

variable {s : Settings} (hs : s.strictScopes = false)
include hs

theorem Tracker.close_succeeds (b : Block) (position : Option Int) (t : Tracker) :
    (close s b position t).Succeeds := by
  by_cases h : t.blocks.head? = some b
  · exact ⟨(), by rw [close_of_head? h]⟩
  · obtain ⟨cause, hclose⟩ : ∃ cause, close s b position t = _ := close_permissive hs h
    exact ⟨(), by rw [hclose]⟩

theorem Directive.fragment_succeeds (d : Directive) (position : Option Int) (t : Tracker) :
    (d.fragment s position t).Succeeds := by
  obtain ⟨kind, e⟩ := d
  cases kind with
  | each | hide | selectedIf | checkedIf | partialCall | key | interpolation => exact ⟨_, rfl⟩
  | eachEnd =>
      have hclose := Tracker.close_succeeds hs .each position t
      exact (hclose.andThen fun _ _ => ⟨_, rfl⟩).map _
  | hideEnd => exact (Tracker.close_succeeds hs .hide position t).map _

theorem Segment.emitAll_succeeds (segments : List Segment) (t : Tracker) :
    (emitAll s segments t).Succeeds := by
  induction segments generalizing t with
  | nil => exact ⟨[], rfl⟩
  | cons segment segments ih =>
      have hfirst : (segment.emit s t).Succeeds := by
        match segment with
        | literal _ _ => exact ⟨_, rfl⟩
        | directive d place _ =>
            exact (Directive.fragment_succeeds hs d (some place) t).andThen fun _ _ => ⟨_, rfl⟩
      exact hfirst.andThen fun fragment t => (ih t).map (fragment :: ·)

theorem Stage.emitSegments_succeeds (segments : List Segment) (t : Tracker) :
    (emitSegments s segments t).Succeeds := by
  refine (Segment.emitAll_succeeds hs segments t).andThen fun fragments t => ?_
  have hbalance : (Tracker.checkBalance s t).Succeeds := by
    rw [Tracker.checkBalance]
    split
    · exact ⟨(), rfl⟩
    · rw [hs]
      exact ⟨(), rfl⟩
  exact hbalance.map _

end Permissive

/-! ### The end of a compilation -/

namespace Compiler

/-- What the minifier gives for a trimmed template, whose tags are protected. -/
def answer (c : Compiler) (text : Text) : Reply :=
  c.minifier.run (c.settings.tagPlaceholders.protectTags text).text c.options.html.toObject

/-- A trimmed template, minified if the options ask for it. -/
def minified (c : Compiler) (text : Text) : Except CompileError Text :=
  if c.options.wantsMinify text then
    match (c.answer text).result with
    | .error cause => .error (Stage.minifierError cause)
    | .ok value =>
      match c.settings.tagPlaceholders.restoreValue
        (c.settings.tagPlaceholders.protectTags text).kept value with
      | .error cause => .error (.unhandled cause)
      | .ok restored => .ok restored
  else .ok text

/-- The function that a minified template is turned into. -/
def finished (c : Compiler) (text : Text) : Except CompileError Text :=
  match (Stage.emitSegments c.settings (Segment.scan (Text.escape text)) {}).result with
  | .error e => .error (.unbalanced e)
  | .ok fragments => .ok (c.wrapped fragments.code)

end Compiler

namespace Stage

variable {c : Compiler} {d : Draft} {t : Tracker}

theorem runMinify_eq (c : Compiler) (d : Draft) (t : Tracker) :
    runMinify c d t =
      ⟨(c.minified d.source).map fun source => { d with source }, t,
        if c.options.wantsMinify d.source then
          [minifyRemark (c.settings.tagPlaceholders.protectTags d.source).kept.length] else [],
        if c.options.wantsMinify d.source then (c.answer d.source).calls else []⟩ := by
  simp only [runMinify, Compiler.minified, Compiler.answer]
  by_cases hwants : c.options.wantsMinify d.source = true
  · simp only [if_pos hwants]
    cases (c.minifier.run (c.settings.tagPlaceholders.protectTags d.source).text
      c.options.html.toObject).result with
    | error cause => rfl
    | ok value =>
        dsimp only
        cases c.settings.tagPlaceholders.restoreValue
          (c.settings.tagPlaceholders.protectTags d.source).kept value <;> rfl
  · simp only [if_neg hwants]
    rfl

theorem result_runAll_cons (c : Compiler) (stage : Stage) (stages : List Stage) (d : Draft)
    (t : Tracker) :
    (runAll c (stage :: stages) d t).result =
      (stage.run c d t).result.bind fun next =>
        (runAll c stages next (stage.run c d t).tracker).result := by
  rw [runAll]
  cases (stage.run c d t).result <;> rfl

theorem result_runAll_trim_minify (c : Compiler) (source : Text) :
    (runAll c [trim, minify] { source } {}).result =
      (c.minified (Text.trim source)).map fun source => { source } := by
  have htrim : (trim.run c { source } {}).result = .ok { source := Text.trim source } := rfl
  have hminify : minify.run c { source := Text.trim source } {} = _ := runMinify_eq _ _ _
  rw [result_runAll_cons, htrim, Except.bind, result_runAll_cons, run, runTrim, hminify]
  cases c.minified (Text.trim source) <;> rfl

private theorem result_runAll_escape_emit_wrap (c : Compiler) (source : Text) :
    (runAll c [escape, emit, wrap] { source } {}).result.map Draft.code = c.finished source := by
  have hescape : (escape.run c { source } {}).result =
      .ok { source, escaped := Text.escape source } := rfl
  have hwrap (d : Draft) (t : Tracker) : (runAll c [wrap] d t).result.map Draft.code =
      .ok (c.wrapped d.body) := rfl
  rw [result_runAll_cons, hescape, Except.bind, result_runAll_cons, Compiler.finished]
  change (Except.bind (runEmit c { source, escaped := Text.escape source } {}).result _).map _ = _
  rw [runEmit]
  match (emitSegments c.settings (Segment.scan (Text.escape source)) {}) with
  | ⟨.error e, u, moments⟩ => rfl
  | ⟨.ok fragments, u, moments⟩ => exact hwrap _ _

/-- After the first two stages the others run on the minified template. -/
theorem result_runAll_all_eq_bind (c : Compiler) (source : Text) :
    (runAll c all { source } {}).result =
      (c.minified (Text.trim source)).bind fun text =>
        (runAll c [escape, emit, wrap] { source := text } {}).result := by
  have htrim : (trim.run c { source } {}).result = .ok { source := Text.trim source } := rfl
  have hminify : minify.run c { source := Text.trim source } {} = _ := runMinify_eq _ _ _
  rw [all, result_runAll_cons, htrim, Except.bind, result_runAll_cons, run, runTrim, hminify]
  cases c.minified (Text.trim source) <;> rfl

theorem result_runAll_all (c : Compiler) (source : Text) :
    (runAll c all { source } {}).result.map Draft.code =
      (c.minified (Text.trim source)).bind c.finished := by
  rw [result_runAll_all_eq_bind]
  cases c.minified (Text.trim source) with
  | error _ => rfl
  | ok text => exact result_runAll_escape_emit_wrap c text

/-- A compilation that comes to its end has scanned the escaped template, minified if the options
ask for it. -/
theorem of_result_runAll_all {c : Compiler} {source : Text} {draft : Draft}
    (h : (runAll c all { source } {}).result = .ok draft) :
    c.minified (Text.trim source) = .ok draft.source ∧
      draft.segments = Segment.scan (Text.escape draft.source) := by
  rw [result_runAll_all_eq_bind] at h
  match hminified : c.minified (Text.trim source) with
  | .error e =>
      rw [hminified] at h
      cases h
  | .ok text =>
      have hescape : (escape.run c { source := text } {}).result =
          .ok { source := text, escaped := Text.escape text } := rfl
      rw [hminified, Except.bind, result_runAll_cons, hescape, Except.bind, result_runAll_cons] at h
      change Except.bind (runEmit c { source := text, escaped := Text.escape text } {}).result _
        = .ok draft at h
      rw [runEmit] at h
      match hstep : (emitSegments c.settings (Segment.scan (Text.escape text)) {}).result with
      | .error e =>
          rw [hstep] at h
          cases h
      | .ok fragments =>
          rw [hstep] at h
          obtain rfl := Except.ok.inj h
          exact ⟨rfl, rfl⟩

end Stage

namespace Compiler

theorem finished_of_not_hasTag (c : Compiler) {text : Text} (h : ¬Piece.HasTag text) :
    c.finished text = .ok (c.wrapped (Text.escape text)) := by
  have hpieces := Piece.ofText_escape text
  rw [Piece.ofText_of_not_hasTag h] at hpieces
  rw [finished, Segment.scan, hpieces]
  split_ifs with hnil
  · rw [hnil]
    rfl
  · have hcode : c.wrapped (Fragments.code [Text.escape text]) = c.wrapped (Text.escape text) := by
      simp [Fragments.code]
    rw [← hcode]
    rfl

theorem finished_ne_minification (c : Compiler) (text : Text) (cause : Failure) :
    c.finished text ≠ .error (.minification cause) := by
  rw [finished]
  split <;> simp

theorem result_compile_eq (c : Compiler) (source : Text) :
    (c.compile source).result =
      match c.minified (Text.trim source) with
      | .ok text => c.finished text
      | .error (.minification _) => .ok (errorCode c.settings)
      | .error e => .error e := by
  have hall := Stage.result_runAll_all c source
  revert hall
  rw [compile, run]
  obtain ⟨result, _, _, _⟩ := Stage.runAll c Stage.all { source } {}
  cases result with
  | ok d =>
      cases c.minified (Text.trim source) with
      | ok text => exact id
      | error e => exact fun hall => by cases hall
  | error e =>
      intro hall
      cases hminified : c.minified (Text.trim source) with
      | ok text =>
          rw [hminified] at hall
          -- Only the stage that minifies ends with a failure of the minifier.
          cases e with
          | unbalanced _ => exact hall
          | minification cause => exact absurd hall.symm (c.finished_ne_minification text cause)
          | unhandled _ => exact hall
      | error e' =>
          rw [hminified] at hall
          obtain rfl := Except.error.inj hall
          cases e <;> rfl

/-- The code of the segments stands in the function, one fragment after another. -/
theorem result_compile_of_emitted {c : Compiler} {source text : Text} {codes : List Text}
    (hminified : c.minified (Text.trim source) = .ok text)
    (hemitted : (Stage.emitSegments c.settings (Segment.scan (Text.escape text)) {}).result =
      .ok codes) :
    (c.compile source).result =
      .ok (c.settings.functionOpening ++ codes.flatten ++ functionClosing) := by
  rw [result_compile_eq, hminified]
  dsimp only
  rw [finished, hemitted]
  rfl

theorem minified_of_not_wantsMinify {c : Compiler} {text : Text}
    (h : c.options.wantsMinify text = false) : c.minified text = .ok text := by
  rw [minified, h]
  rfl

theorem result_compile_of_not_hasTag {c : Compiler} {source : Text}
    (hminify : c.options.wantsMinify (Text.trim source) = false) (h : ¬Piece.HasTag source) :
    (c.compile source).result = .ok (c.wrapped (Text.escape (Text.trim source))) := by
  have htrim : ¬Piece.HasTag (Text.trim source) := fun ht => h (ht.mono (Text.trim_isInfix source))
  rw [result_compile_eq, minified_of_not_wantsMinify hminify]
  exact c.finished_of_not_hasTag htrim

end Compiler

/-! ### Permissive compilations -/

/-- Whatever it is given, a minifier gives a text or fails, and is not interrupted. -/
def Minifier.AnswersText (m : Minifier) : Prop :=
  ∀ text options, (∃ answer, (m.run text options).result = .ok (.string answer)) ∨
    ∃ cause, (m.run text options).result = .error cause ∧ cause.isInterrupt = false

theorem Minifier.answersText_keep : Minifier.keep.AnswersText := fun text _ => .inl ⟨text, rfl⟩

theorem Minifier.answersText_standard {leaf : External}
    (h : ∀ text options, (∃ answer, leaf text options = .ok (.string answer)) ∨
      ∃ cause, leaf text options = .error cause ∧ cause.isInterrupt = false) :
    (Minifier.standard leaf).AnswersText := by
  intro text options
  rw [run, Html.minify]
  match Html.check options with
  | .error cause => exact .inr ⟨_, rfl, rfl⟩
  | .ok false => exact h _ _
  | .ok true =>
      dsimp only [External.call]
      rcases h (Html.protectAttributes Html.attributeFormat
          (Html.isOn options .collapseBooleanAttributes) (Html.prepare text options)).text
        (Html.arguments options) with ⟨answer, hanswer⟩ | ⟨cause, hcause, hinterrupt⟩
      · rw [hanswer]
        dsimp only [Placeholder.Format.restoreValue]
        split
        · exact .inl ⟨_, rfl⟩
        · exact .inr ⟨_, rfl, rfl⟩
      · exact .inr ⟨cause, by rw [hcause], hinterrupt⟩

namespace Compiler

variable {c : Compiler} {source : Text}

/-- The minifier is asked about a trimmed template, and the text that it gives has a placeholder
with more digits than are read. -/
def MeetsTooLong (c : Compiler) (text : Text) : Prop :=
  c.options.wantsMinify text = true ∧ ∃ answer, (c.answer text).result = .ok (.string answer) ∧
    ∃ found ∈ c.settings.tagPlaceholders.find answer, Placeholder.maxDigits < found.digits.length

theorem finished_succeeds (hs : c.settings.strictScopes = false) (text : Text) :
    ∃ code, c.finished text = .ok code := by
  obtain ⟨fragments, hfragments⟩ :=
    Stage.emitSegments_succeeds hs (Segment.scan (Text.escape text)) {}
  exact ⟨c.wrapped fragments.code, by rw [finished, hfragments]⟩

theorem minified_of_error {text : Text} {cause : Failure} (hwants : c.options.wantsMinify text = true)
    (hcause : (c.answer text).result = .error cause) :
    c.minified text = .error (Stage.minifierError cause) := by
  rw [minified, if_pos hwants, hcause]

theorem minified_of_string {text answer : Text} (hwants : c.options.wantsMinify text = true)
    (hanswer : (c.answer text).result = .ok (.string answer)) :
    c.minified text =
      match c.settings.tagPlaceholders.restore
        (c.settings.tagPlaceholders.protectTags text).kept answer with
      | .ok restored => .ok restored
      | .error e => .error (.unhandled (.tooLong e)) := by
  rw [minified, if_pos hwants, hanswer]
  dsimp only [Placeholder.Format.restoreValue]
  match c.settings.tagPlaceholders.restore
    (c.settings.tagPlaceholders.protectTags text).kept answer with
  | .ok _ | .error _ => rfl

private theorem minified_of_meetsTooLong {text : Text} (h : c.MeetsTooLong text) :
    ∃ n, Placeholder.maxDigits < n ∧ c.minified text = .error (.unhandled (.tooLong ⟨n⟩)) := by
  obtain ⟨hwants, answer, hanswer, found, hfound, hlong⟩ := h
  rw [minified_of_string hwants hanswer]
  have hmem := Placeholder.Format.mem_find_iff.1 ⟨found, hfound, rfl⟩
  match hrestore : c.settings.tagPlaceholders.restore
    (c.settings.tagPlaceholders.protectTags text).kept answer with
  | .ok restored =>
      have hshort := Placeholder.Format.length_le_of_fillAll_eq_ok hrestore hmem
      omega
  | .error e =>
      obtain ⟨ds, -, hds, rfl⟩ := Placeholder.Format.exists_of_fillAll_eq_error hrestore
      exact ⟨ds.length, hds, rfl⟩

/-- Without such a placeholder, there is a minified text, or a failure of the minifier. -/
theorem minified_of_not_meetsTooLong (hm : c.minifier.AnswersText) {text : Text}
    (h : ¬c.MeetsTooLong text) :
    (∃ restored, c.minified text = .ok restored) ∨
      ∃ cause, c.minified text = .error (.minification cause) := by
  by_cases hwants : c.options.wantsMinify text = true
  · rcases hm (c.settings.tagPlaceholders.protectTags text).text c.options.html.toObject with
      ⟨answer, hanswer⟩ | ⟨cause, hcause, hinterrupt⟩
    · rw [minified_of_string hwants hanswer]
      match hrestore : c.settings.tagPlaceholders.restore
        (c.settings.tagPlaceholders.protectTags text).kept answer with
      | .ok restored => exact .inl ⟨restored, rfl⟩
      | .error e =>
          obtain ⟨ds, hds, hlong, -⟩ := Placeholder.Format.exists_of_fillAll_eq_error hrestore
          obtain ⟨found, hfound, rfl⟩ := Placeholder.Format.mem_find_iff.2 hds
          exact absurd ⟨hwants, answer, hanswer, found, hfound, hlong⟩ h
    · refine .inr ⟨cause, ?_⟩
      rw [minified_of_error hwants hcause, Stage.minifierError, hinterrupt]
      rfl
  · exact .inl ⟨text, by rw [minified, if_neg hwants]⟩

theorem result_compile_of_meetsTooLong (h : c.MeetsTooLong (Text.trim source)) :
    ∃ n, Placeholder.maxDigits < n ∧
      (c.compile source).result = .error (.unhandled (.tooLong ⟨n⟩)) := by
  obtain ⟨n, hn, hminified⟩ := minified_of_meetsTooLong h
  exact ⟨n, hn, by rw [result_compile_eq, hminified]⟩

/-- Under permissive settings a minifier that gives texts or fails leaves one way to end without
code. -/
theorem result_compile_permissive (hs : c.settings.strictScopes = false)
    (hm : c.minifier.AnswersText) (source : Text) :
    ((∃ code, (c.compile source).result = .ok code) ↔ ¬c.MeetsTooLong (Text.trim source)) ∧
      (c.MeetsTooLong (Text.trim source) →
        ∃ n, Placeholder.maxDigits < n ∧
          (c.compile source).result = .error (.unhandled (.tooLong ⟨n⟩))) ∧
      ∀ cause, c.options.wantsMinify (Text.trim source) = true →
        (c.answer (Text.trim source)).result = .error cause →
          (c.compile source).result = .ok (errorCode c.settings) := by
  refine ⟨⟨?_, fun h => ?_⟩, result_compile_of_meetsTooLong, ?_⟩
  · intro ⟨code, hcode⟩ h
    obtain ⟨n, -, hn⟩ := result_compile_of_meetsTooLong h
    rw [hn] at hcode
    cases hcode
  · rw [result_compile_eq]
    rcases minified_of_not_meetsTooLong hm h with ⟨restored, hrestored⟩ | ⟨cause, hcause⟩
    · rw [hrestored]
      exact finished_succeeds hs restored
    · rw [hcause]
      exact ⟨_, rfl⟩
  · intro cause hwants hcause
    have hinterrupt : cause.isInterrupt = false := by
      rcases hm (c.settings.tagPlaceholders.protectTags (Text.trim source)).text
        c.options.html.toObject with ⟨answer, hanswer⟩ | ⟨cause', hcause', hinterrupt⟩
      · exact absurd (hanswer.symm.trans hcause) (by simp)
      · obtain rfl := Except.error.inj (hcause'.symm.trans hcause)
        exact hinterrupt
    rw [result_compile_eq, minified_of_error hwants hcause, Stage.minifierError, hinterrupt]
    rfl

theorem result_compile_permissive_failing :
    (({ options := { minify := true },
        minifier := .standard fun _ _ => .error (.runtime "stopped".toList) } : Compiler).compile
      "<p>\x7b\x7ba\x7d\x7d</p>".toList).result
        = .ok "function(m0)\x7breturn 'ERROR';\x7d".toList :=
  (result_compile_permissive rfl (Minifier.answersText_standard fun _ _ => .inr ⟨_, rfl, rfl⟩) _).2.2
    (.runtime "stopped".toList) rfl rfl

private theorem trim_tagPlaceholder (ds : Text) :
    Text.trim (({} : Settings).tagPlaceholders.partText (.hole ds)) =
      ({} : Settings).tagPlaceholders.partText (.hole ds) := by
  apply Text.trim_eq_self
  · intro c hc
    obtain rfl : 't' = c := Option.some.inj hc
    rfl
  · intro c hc
    rw [Placeholder.Format.partText, List.getLast?_append_of_ne_nil _ (by decide)] at hc
    obtain rfl : 'h' = c := Option.some.inj hc
    rfl

/-- A minifier that keeps every text keeps a placeholder that the template itself has. -/
private theorem meetsTooLong_tagPlaceholder {ds : Text} (hds : Placeholder.Format.IsNumeral ds)
    (hlong : Placeholder.maxDigits < ds.length) :
    ({ options := { minify := true }, minifier := .keep } : Compiler).MeetsTooLong
      (({} : Settings).tagPlaceholders.partText (.hole ds)) := by
  have hbrace : '{' ∉ ({} : Settings).tagPlaceholders.partText (.hole ds) :=
    Placeholder.Format.IsForeign.not_mem (by decide) ⟨ds, hds, rfl⟩
  have hpieces := Piece.ofText_of_not_hasTag (Piece.not_hasTag_of_not_mem hbrace)
  rw [if_neg (Placeholder.Format.IsPlaceholder.ne_nil ⟨ds, hds, rfl⟩)] at hpieces
  have hprotected : (({} : Settings).tagPlaceholders.protectTags
      (({} : Settings).tagPlaceholders.partText (.hole ds))).text
        = ({} : Settings).tagPlaceholders.partText (.hole ds) := by
    rw [Placeholder.Format.protectTags, hpieces]
    exact List.append_nil _
  obtain ⟨found, hfound, rfl⟩ := Placeholder.Format.mem_find_iff.2
    (Placeholder.Format.isClear_tags.hole_mem_parts_iff.2 ⟨hds, List.infix_rfl⟩)
  refine ⟨rfl, _, ?_, found, hfound, hlong⟩
  rw [answer, hprotected]
  rfl

theorem result_compile_permissive_long_number :
    ({} : Settings).Admitted ∧ ({} : Settings).strictScopes = false ∧ Minifier.keep.AnswersText ∧
      ∀ code, (({ options := { minify := true }, minifier := .keep } : Compiler).compile
        ("templatize-tag-".toList ++ List.replicate 4301 '1' ++ "-ph".toList)).result ≠ .ok code := by
  refine ⟨Settings.admitted_default, rfl, Minifier.answersText_keep, fun code hcode => ?_⟩
  have hds : Placeholder.Format.IsNumeral (List.replicate 4301 '1') :=
    ⟨List.replicate_succ_ne_nil, fun c hc => by rw [List.eq_of_mem_replicate hc]; rfl⟩
  have hlong : Placeholder.maxDigits < (List.replicate 4301 '1').length := by
    rw [List.length_replicate]
    decide
  have hmeets := meetsTooLong_tagPlaceholder hds hlong
  rw [← trim_tagPlaceholder] at hmeets
  obtain ⟨n, -, hn⟩ := result_compile_of_meetsTooLong hmeets
  exact absurd (hn.symm.trans hcode) (by simp)

end Compiler

end Stencil
