import Stencil.Proofs.Completion
import Stencil.Proofs.Reading

/-!
# Line endings

A line break is one unit of a text, however it is spelled. In a text without carriage returns
every line feed is a break, and each of the other spellings can take the place of all of them: two
spellings side by side never join, because one of two characters is taken as a whole where it
stands, and one of a single character stands beside others of its kind. Breaks are blanks, so
those at the ends of a template are removed in every spelling. The code is made from the escaped
template, which is read off the units, so it is the same, and so are the places in it that errors
report.
-/

namespace Stencil

namespace Text

inductive LineEnding where
  | lf
  | cr
  | crlf
  | lfcr
deriving DecidableEq, Repr

namespace LineEnding

def text : LineEnding → Text
  | lf => ['\n']
  | cr => ['\r']
  | crlf => ['\r', '\n']
  | lfcr => ['\n', '\r']

/-- What stands for a character of a text whose lines end in line feeds. -/
def spell (e : LineEnding) (c : Char) : Text := if c = '\n' then e.text else [c]

end LineEnding

/-- The text with every line feed replaced by another line break. -/
def withEnding (e : LineEnding) (s : Text) : Text := s.flatMap e.spell

/-- The unit that a character is in a text whose lines end in line feeds. -/
def lineUnit (c : Char) : Option Char := if c = '\n' then none else some c

variable {e : LineEnding} {s : Text} {c : Char}

private theorem LineEnding.isBlank_of_mem_text (e : LineEnding) :
    ∀ c ∈ e.text, isBlank c = true := by
  cases e <;> decide

private theorem LineEnding.spell_newline (e : LineEnding) : e.spell '\n' = e.text := rfl

theorem LineEnding.spell_of_ne (e : LineEnding) (h : c ≠ '\n') : e.spell c = [c] := if_neg h

theorem withEnding_cons (e : LineEnding) (c : Char) (s : Text) :
    withEnding e (c :: s) = e.spell c ++ withEnding e s := rfl

theorem withEnding_lf (s : Text) : withEnding .lf s = s := by
  have hspell : LineEnding.spell .lf = fun c => [c] := by
    funext c
    rw [LineEnding.spell]
    split_ifs with h
    · rw [h]
      rfl
    · rfl
  rw [withEnding, hspell, List.flatMap_singleton']

theorem mem_withEnding (h : c ∈ withEnding e s) : c ∈ e.text ∨ c ≠ '\n' ∧ c ∈ s := by
  obtain ⟨d, hd, hc⟩ := List.mem_flatMap.1 h
  rw [LineEnding.spell] at hc
  split_ifs at hc with hbreak
  · exact .inl hc
  · obtain rfl := List.mem_singleton.1 hc
    exact .inr ⟨hbreak, hd⟩

/-! ### Units -/

/-- A line break is one unit unless what follows it makes it longer. -/
theorem units_text_append {r : Text} (hlf : e = .lf → '\r' ∉ r) (hcr : e = .cr → '\n' ∉ r) :
    units (e.text ++ r) = none :: units r := by
  cases e with
  | lf =>
      change units ('\n' :: r) = _
      rw [units]
      rintro t rfl
      exact hlf rfl List.mem_cons_self
  | cr =>
      change units ('\r' :: r) = _
      rw [units]
      rintro t rfl
      exact hcr rfl List.mem_cons_self
  | crlf => exact units.eq_1 r
  | lfcr => exact units.eq_2 r

private theorem units_withEnding_eq_map (e : LineEnding) (h : '\r' ∉ s) :
    units (withEnding e s) = s.map lineUnit := by
  induction s with
  | nil => exact units_nil
  | cons c s ih =>
      obtain ⟨hc, hs⟩ := not_or.1 (mt List.mem_cons.2 h)
      rw [withEnding_cons, List.map_cons, ← ih hs, lineUnit]
      split_ifs with hbreak
      · rw [hbreak, e.spell_newline]
        refine units_text_append ?_ ?_
        · rintro rfl hreturn
          exact (mem_withEnding hreturn).elim (by decide) fun hmem => hs hmem.2
        · rintro rfl hfeed
          exact (mem_withEnding hfeed).elim (by decide) fun hmem => hmem.1 rfl
      · rw [e.spell_of_ne hbreak]
        exact units_cons hbreak (Ne.symm hc) _

theorem units_withEnding (e : LineEnding) (h : '\r' ∉ s) : units (withEnding e s) = units s := by
  rw [units_withEnding_eq_map e h, ← units_withEnding_eq_map .lf h, withEnding_lf]

theorem lineCount_withEnding (e : LineEnding) (h : '\r' ∉ s) :
    lineCount (withEnding e s) = lineCount s := by
  rw [lineCount, units_withEnding e h, lineCount]

theorem escape_withEnding (e : LineEnding) (h : '\r' ∉ s) :
    escape (withEnding e s) = escape s := by
  rw [escape, units_withEnding e h, escape]

/-! ### Blanks at the ends -/

/-- Text that stands for each character, and is blank where the character is. -/
structure KeepsBlanks (f : Char → Text) : Prop where
  blank : ∀ c, isBlank c = true → ∀ d ∈ f c, isBlank d = true
  other : ∀ c, isBlank c = false → f c = [c]

theorem KeepsBlanks.trimLeft_flatMap {f : Char → Text} (h : KeepsBlanks f) (s : Text) :
    trimLeft (s.flatMap f) = (trimLeft s).flatMap f := by
  induction s with
  | nil => rfl
  | cons c s ih =>
      rw [List.flatMap_cons]
      by_cases hc : isBlank c = true
      · have hblank : trimLeft (c :: s) = trimLeft s := List.dropWhile_cons_of_pos hc
        rw [trimLeft_blanks_append (h.blank c hc), ih, hblank]
      · have hother (r : Text) : trimLeft (c :: r) = c :: r := List.dropWhile_cons_of_neg hc
        rw [h.other c (by simpa using hc), List.singleton_append, hother, hother,
          List.flatMap_cons, h.other c (by simpa using hc), List.singleton_append]

theorem KeepsBlanks.reverse {f : Char → Text} (h : KeepsBlanks f) :
    KeepsBlanks fun c => (f c).reverse where
  blank c hc d hd := h.blank c hc d (List.mem_reverse.1 hd)
  other c hc := by rw [h.other c hc, List.reverse_singleton]

theorem KeepsBlanks.trimRight_flatMap {f : Char → Text} (h : KeepsBlanks f) (s : Text) :
    trimRight (s.flatMap f) = (trimRight s).flatMap f := by
  have hreverse (t : Text) : trimRight t = (trimLeft t.reverse).reverse := rfl
  rw [hreverse, hreverse, List.reverse_flatMap]
  refine (congrArg List.reverse (h.reverse.trimLeft_flatMap s.reverse)).trans ?_
  rw [List.reverse_flatMap]
  simp only [Function.comp_def, List.reverse_reverse]

theorem LineEnding.keepsBlanks_spell (e : LineEnding) : KeepsBlanks e.spell where
  blank c hc d hd := by
    rw [spell] at hd
    split_ifs at hd
    · exact e.isBlank_of_mem_text d hd
    · rwa [List.mem_singleton.1 hd]
  other c hc := e.spell_of_ne (by rintro rfl; cases hc)

theorem trim_withEnding (e : LineEnding) (s : Text) :
    trim (withEnding e s) = withEnding e (trim s) := by
  rw [trim, withEnding, e.keepsBlanks_spell.trimLeft_flatMap,
    e.keepsBlanks_spell.trimRight_flatMap]
  rfl

end Text

/-! ### Compilation -/

private theorem Options.wantsMinify_trim_withEnding (options : Options) (e : Text.LineEnding)
    {s : Text} (h : '\r' ∉ s) :
    options.wantsMinify (Text.trim (Text.withEnding e s)) = options.wantsMinify (Text.trim s) := by
  have htrim : '\r' ∉ Text.trim s := fun hmem => h ((Text.trim_isInfix s).subset hmem)
  rw [Text.trim_withEnding, wantsMinify, wantsMinify, Text.lineCount_withEnding e htrim]

namespace Compiler

/-- The code depends on the escaped template only. -/
theorem finished_congr (c : Compiler) {s t : Text} (h : Text.escape s = Text.escape t) :
    c.finished s = c.finished t := by
  rw [finished, finished, h]

/-- How the lines of a template end makes no difference: not to their number, not to whether the
trimmed template is to be minified, and, if it is not, neither to the code nor to the error. -/
theorem result_compile_withEnding (c : Compiler) (e : Text.LineEnding) {source : Text}
    (h : '\r' ∉ source) :
    Text.lineCount (Text.withEnding e source) = Text.lineCount source ∧
      (∀ options : Options, options.wantsMinify (Text.trim (Text.withEnding e source)) =
        options.wantsMinify (Text.trim source)) ∧
      (c.options.wantsMinify (Text.trim source) = false →
        (c.compile (Text.withEnding e source)).result = (c.compile source).result) := by
  refine ⟨Text.lineCount_withEnding e h, fun options => options.wantsMinify_trim_withEnding e h,
    fun hminify => ?_⟩
  have htrim : '\r' ∉ Text.trim source := fun hmem => h ((Text.trim_isInfix source).subset hmem)
  have hspelled : c.options.wantsMinify (Text.trim (Text.withEnding e source)) = false := by
    rw [c.options.wantsMinify_trim_withEnding e h, hminify]
  rw [result_compile_eq, result_compile_eq, minified_of_not_wantsMinify hminify,
    minified_of_not_wantsMinify hspelled]
  refine c.finished_congr ?_
  rw [Text.trim_withEnding, Text.escape_withEnding e htrim]

/-- Empty lines, and breaks at the ends and inside a tag. -/
theorem result_compile_withEnding_lfcr :
    '\r' ∉ "\n<p>\n\n\x7b\x7b#each\na\x7d\x7d\n".toList ∧
      ({} : Options).wantsMinify (Text.trim "\n<p>\n\n\x7b\x7b#each\na\x7d\x7d\n".toList) = false ∧
      ∀ settings : Settings,
        (({ settings, minifier := .keep } : Compiler).compile
            "\n\r<p>\n\r\n\r\x7b\x7b#each\n\ra\x7d\x7d\n\r".toList).result =
          (({ settings, minifier := .keep } : Compiler).compile
            "\n<p>\n\n\x7b\x7b#each\na\x7d\x7d\n".toList).result := by
  have hreturn : '\r' ∉ "\n<p>\n\n\x7b\x7b#each\na\x7d\x7d\n".toList := by decide
  have hminify : ({} : Options).wantsMinify
      (Text.trim "\n<p>\n\n\x7b\x7b#each\na\x7d\x7d\n".toList) = false := rfl
  refine ⟨hreturn, hminify, fun settings => ?_⟩
  exact (result_compile_withEnding { settings, minifier := .keep } .lfcr hreturn).2.2 hminify

end Compiler

end Stencil
