import Stencil.Proofs.Attributes
import Stencil.Proofs.Cuts

/-!
# Minification keeps the directives

Over an outside function that gives every text back, the standard way to minify is a sequence of
thinnings between hiding the tags and putting them back. Each thinning keeps three facts: the text
is calm, it has the placeholders of the tags in order and no others, and it has no beginning of a
placeholder for attributes. They hold of a template whose literal text begins no placeholder, and
they are enough to find its directives again at the end.
-/

namespace Stencil

open Placeholder Placeholder.Format

/-! ### Directives -/

def Segment.directives (segments : List Segment) : List (Directive × Text) :=
  segments.filterMap fun
    | literal _ _ => none
    | directive d _ t => some (d, t)

/-- What stands between the braces of the text of a tag. -/
def Piece.innerOf (w : Text) : Text := (w.drop 2).dropLast.dropLast

private theorem Piece.innerOf_text (inner : Text) : innerOf (tag inner).text = inner := by
  simp [innerOf, text, opening, closing]

theorem Segment.directives_locate (place : Nat) (ps : List Piece) :
    directives (locate place ps) =
      (Piece.tags ps).map fun w => (Directive.ofInner (Piece.innerOf w), w) := by
  induction ps generalizing place with
  | nil => rfl
  | cons p ps ih =>
      rw [locate]
      cases p with
      | literal t => exact ih _
      | tag inner =>
          have htags : Piece.tags (.tag inner :: ps) = (Piece.tag inner).text :: Piece.tags ps := rfl
          rw [htags, List.map_cons, Piece.innerOf_text, ← ih]
          rfl

/-- The texts of its tags determine the directives of a text. -/
theorem Segment.directives_scan_eq {s t : Text}
    (h : Piece.tags (Piece.ofText s) = Piece.tags (Piece.ofText t)) :
    directives (scan s) = directives (scan t) := by
  rw [scan, scan, directives_locate, directives_locate, h]

namespace Html

/-! ### What every step keeps -/

/-- A text from which the tags of a template can be put back, for a format that endures. -/
structure Retains (f : Format) (source text : Text) : Prop where
  endures : Endures f
  calm : Calm (f.parts text)
  digits : (f.parts text).filterMap Part.digits? =
    (tokens 0 (Piece.ofText source)).filterMap Part.digits?
  no_attributes : ∀ ds, ¬attributeFormat.Holds text ds

/-- Thinning makes no placeholder. -/
theorem holds_of_thinned {f g : Format} (hg : g.IsName) {s t ds : Text}
    (h : Thinned (f.parts s) (f.parts t)) (hholds : g.Holds t ds) : g.Holds s ds := by
  have hsolid : ∀ p ∈ (g.partText (.hole ds)).map Part.char, p.IsSolid := by
    intro p hp
    obtain ⟨c, hc, rfl⟩ := List.mem_map.1 hp
    by_contra hname
    rw [Part.IsSolid, Bool.not_eq_true] at hname
    exact (isForeign_of_isNameChar hg hname).not_mem ⟨ds, hholds.1, rfl⟩ hc
  exact ⟨hholds.1, isInfix_of_map_char (h.chars.isInfix hsolid (hholds.2.map Part.char))⟩

theorem isName_attributes : attributeFormat.IsName := Settings.admitted_default.isName rfl

namespace Retains

variable {f : Format} {source text other : Text}

theorem thinned (h : Retains f source text) (hthinned : Thinned (f.parts text) (f.parts other)) :
    Retains f source other :=
  ⟨h.endures, h.calm.thinned hthinned, hthinned.filterMap_digits?.trans h.digits,
    fun ds hds => h.no_attributes ds (holds_of_thinned isName_attributes hthinned hds)⟩

theorem of_separates (hf : Endures f) (hseparates : f.Separates 0 (Piece.ofText source))
    (hplain : ∀ t, .literal t ∈ Piece.ofText source → ∀ ds, ¬f.Holds t ds)
    (hattributes : ∀ ds, ¬attributeFormat.Holds (f.protectTags source).text ds) :
    Retains f source (f.protectTags source).text := by
  have hparts : f.parts (f.protectTags source).text = tokens 0 (Piece.ofText source) := by
    rw [Format.protectTags, hseparates.parts_hideTags, map_fst_units hplain]
  exact ⟨hf, hparts ▸ calm_tokens 0 source, by rw [hparts], hattributes⟩

theorem protectTags (hplain : ∀ t, .literal t ∈ Piece.ofText source →
      ¬({} : Settings).placeholderPrefix <:+: t) :
    Retains tagFormat source (tagFormat.protectTags source).text := by
  have hchain := Piece.isChain_ofText source
  have hseparates := isClear_tags.separates hchain 0
  have hbegins (w : Text) (hw : ({} : Settings).placeholderPrefix <+: w) (t : Text)
      (ht : .literal t ∈ Piece.ofText source) : ¬w <:+: t :=
    fun hwithin => hplain t ht (hw.isInfix.trans hwithin)
  have hplain_tags (t : Text) (ht : .literal t ∈ Piece.ofText source) (ds : Text) :
      ¬tagFormat.Holds t ds := fun hds =>
    hbegins tagFormat.opening ⟨"tag-".toList, rfl⟩ t ht hds.opening_isInfix
  refine of_separates endures_tags hseparates hplain_tags fun ds hds => ?_
  -- Characters that begin a placeholder for attributes are in no placeholder for a tag.
  have hnot_tag (v : Text) (hv : tagFormat.IsPlaceholder v) : ¬attributeFormat.opening <+: v := by
    obtain ⟨ds, -, rfl⟩ := hv
    intro hbegin
    have hopening : tagFormat.opening <+: tagFormat.partText (.hole ds) :=
      ⟨ds ++ tagFormat.closing, by simp [partText]⟩
    rcases List.prefix_or_prefix_of_prefix hbegin hopening with h | h
    · revert h
      decide
    · revert h
      decide
  have hword : tagFormat.parts attributeFormat.opening = attributeFormat.opening.map .char :=
    parts_eq_map_char (by decide)
  obtain ⟨x, y, heq⟩ := hds.2
  have hparts := congrArg tagFormat.parts heq
  rw [partText, List.append_assoc, List.append_assoc, List.append_assoc,
    hasPair_tags.parts_around hasPair_attributes.opening hnot_tag, hword, Format.protectTags,
    hseparates.parts_hideTags, map_fst_units hplain_tags] at hparts
  -- Characters that no placeholder parts from each other are all in one literal text.
  obtain ⟨t, ht, hwithin⟩ := exists_literal_of_isInfix (w := attributeFormat.opening) (by decide) hchain
    ⟨tagFormat.parts x, _, by rw [List.append_assoc]; exact hparts⟩
  exact hbegins attributeFormat.opening ⟨"attrs-".toList, rfl⟩ t ht hwithin

theorem prepare (h : Retains f source text) (o : Object) : Retains f source (Html.prepare text o) := by
  rw [Html.prepare]
  split_ifs
  · obtain ⟨middle, hfirst, hsecond⟩ := RawText.thinned_unwrap h.endures text
    exact (h.thinned hfirst).thinned hsecond
  · exact h

theorem tidy (h : Retains f source text) (collapse : Bool) :
    Retains f source (Markup.tidy collapse (Markup.ofText text)) := by
  have hthinned := Markup.thinned_tidy h.endures collapse
    (fun m => Markup.hasBlank_of_mem_ofText (s := text)) []
  rw [List.nil_append, List.nil_append, Markup.flatMap_text_ofText] at hthinned
  exact h.thinned hthinned

end Retains

section Minify

variable {text : Text} {o : Object} {leaf : External}
  (hleaf : ∀ text object, leaf text object = .ok (.string text))
include hleaf

/-- If attributes are hidden from an outside function that gives every text back, they come back
written anew, unless they are so many that their numbers cannot be read. -/
theorem result_minify_eq_ok_iff (hcheck : check o = .ok true)
    (hplain : ∀ ds, ¬attributeFormat.Holds (Html.prepare text o) ds) (out : Text) :
    (minify leaf text o).result = .ok (.string out) ↔
      (Markup.attributed (Markup.ofText (Html.prepare text o))).length ≤ 10 ^ maxDigits ∧
        out = Markup.tidy (isOn o .collapseBooleanAttributes)
          (Markup.ofText (Html.prepare text o)) := by
  rw [← restore_protectAttributes_eq_ok_iff _ hplain, minify, hcheck]
  simp only [External.call, hleaf, restoreValue]
  split
  · next heq => simp [heq, Except.map]
  · next heq => simp [heq, Except.map]

theorem result_minify_hidden (hcheck : check o = .ok true)
    (hplain : ∀ ds, ¬attributeFormat.Holds (Html.prepare text o) ds)
    (hcount : text.count '<' ≤ 10 ^ maxDigits) :
    (minify leaf text o).result = .ok (.string
      (Markup.tidy (isOn o .collapseBooleanAttributes) (Markup.ofText (Html.prepare text o)))) := by
  have hsublist : (Html.prepare text o).Sublist text := by
    rw [Html.prepare]
    split_ifs
    · exact RawText.unwrap_sublist text
    · exact List.Sublist.refl text
  have hlength := Markup.length_attributed_le (Markup.ofText (Html.prepare text o))
  rw [Markup.flatMap_text_ofText] at hlength
  exact (result_minify_eq_ok_iff hleaf hcheck hplain _).2
    ⟨hlength.trans ((hsublist.count_le '<').trans hcount), rfl⟩

end Minify

private theorem exists_minify {f : Format} {source text : Text} {o : Object} {isHidden : Bool}
    {leaf : External} (hcheck : check o = .ok isHidden)
    (hleaf : ∀ text object, leaf text object = .ok (.string text)) (h : Retains f source text)
    (hcount : text.count '<' ≤ 10 ^ maxDigits) :
    ∃ answer, (minify leaf text o).result = .ok (.string answer) ∧ Retains f source answer := by
  match isHidden with
  | false => exact ⟨Html.prepare text o, by rw [minify, hcheck]; exact hleaf _ _, h.prepare o⟩
  | true =>
      have hprepared := h.prepare o
      exact ⟨_, result_minify_hidden hleaf hcheck hprepared.no_attributes hcount, hprepared.tidy _⟩

theorem Retains.exists_of_hole_mem {f : Format} {source text ds : Text} (h : Retains f source text)
    (hds : .hole ds ∈ f.parts text) :
    ∃ k t, (f.protectTags source).kept[k]? = some t ∧ ds = Text.ofNat k := by
  have hkept : (f.protectTags source).kept.drop 0 = Piece.tags (Piece.ofText source) := rfl
  rw [← mem_digits_iff, h.digits, mem_digits_iff] at hds
  exact exists_of_hole_mem_tokens hkept hds

/-- When the tags are put back, scanning finds them in order. -/
theorem Retains.restore {f : Format} {source answer : Text} (h : Retains f source answer)
    (hcount : (f.protectTags source).kept.length ≤ 10 ^ maxDigits) :
    ∃ restored, f.restore (f.protectTags source).kept answer = .ok restored ∧
      Piece.tags (Piece.ofText restored) = Piece.tags (Piece.ofText source) := by
  have hkept : (f.protectTags source).kept.drop 0 = Piece.tags (Piece.ofText source) := rfl
  have hshort : ∀ ds, .hole ds ∈ f.parts answer → ds.length ≤ maxDigits := by
    intro ds hds
    obtain ⟨k, t, hk, rfl⟩ := h.exists_of_hole_mem hds
    have hlt := (List.getElem?_eq_some_iff.1 hk).1
    exact (Text.length_ofNat_le_iff (by decide)).2 (by omega)
  refine ⟨_, fillAll_eq_ok hshort, ?_⟩
  rw [h.calm.tags_filled, h.digits, map_filled_digits?_tokens hkept]
  intro ds hds
  obtain ⟨k, t, hk, rfl⟩ := h.exists_of_hole_mem hds
  rw [filled_ofNat hk]
  exact Piece.isTag_of_mem_tags (List.mem_of_getElem? hk)

/-! ### Numbers of placeholders -/

theorem length_tags_le (ps : List Piece) : (Piece.tags ps).length ≤ (ps.flatMap Piece.text).length := by
  induction ps with
  | nil => exact Nat.le_refl 0
  | cons p ps ih =>
      rw [List.flatMap_cons, List.length_append]
      match p with
      | .literal t => exact ih.trans (Nat.le_add_left _ _)
      | .tag inner =>
          have htags := Piece.length_tags_tag inner ps
          have htext : 1 ≤ (Piece.tag inner).text.length := by
            simp [Piece.text, Piece.opening]
          omega

theorem count_hideTags_of_isForeign {f : Format} {c : Char} (hc : f.IsForeign c) (n : Nat)
    (ps : List Piece) : (f.hideTags n ps).count c ≤ (ps.flatMap Piece.text).length := by
  induction ps generalizing n with
  | nil => exact Nat.le_refl 0
  | cons p ps ih =>
      rw [List.flatMap_cons, List.length_append]
      match p with
      | .literal t =>
          rw [hideTags, List.count_append]
          exact Nat.add_le_add List.count_le_length (ih n)
      | .tag inner =>
          have hmake : (f.make n).count c = 0 :=
            List.count_eq_zero.2 (hc.not_mem (f.isPlaceholder_make n))
          rw [hideTags, List.count_append, hmake, Nat.zero_add]
          exact (ih (n + 1)).trans (Nat.le_add_left _ _)

private theorem count_hideTags_le (n : Nat) (ps : List Piece) :
    (tagFormat.hideTags n ps).count '<' ≤ (ps.flatMap Piece.text).length :=
  count_hideTags_of_isForeign (by decide) n ps

end Html

namespace Compiler

open Html

/-- The standard way to minify, over an outside function that gives every text back, leaves the
directives of a template as they are if no literal text of it begins a placeholder. The bound on the
length is that the placeholders can be read. -/
theorem directives_minified {source : Text} (hlength : source.length ≤ 10 ^ maxDigits)
    (hplain : ∀ t, .literal t ∈ Piece.ofText source → ¬"templatize-".toList <:+: t)
    {options : Options} {isHidden : Bool} (hcheck : check options.html.toObject = .ok isHidden)
    {leaf : External} (hleaf : ∀ text object, leaf text object = .ok (.string text)) :
    ∃ d, (Stage.runAll { options, minifier := .standard leaf } [.trim, .minify] { source } {}).result
        = .ok d ∧
      Segment.directives (Segment.scan d.source) =
        Segment.directives (Segment.scan (Text.trim source)) := by
  have htrim : (Text.trim source).length ≤ 10 ^ maxDigits :=
    (Text.trim_isInfix source).length_le.trans hlength
  have hliteral : ∀ t, .literal t ∈ Piece.ofText (Text.trim source) →
      ¬({} : Settings).placeholderPrefix <:+: t := by
    intro t ht hwithin
    obtain ⟨u, hu, htu⟩ := Piece.exists_literal_of_trim ht
    exact hplain u hu (hwithin.trans htu)
  have htext := Piece.flatMap_text_ofText (Text.trim source)
  have hkept : (tagFormat.protectTags (Text.trim source)).kept.length ≤ 10 ^ maxDigits := by
    refine (length_tags_le _).trans ?_
    rwa [htext]
  have hcount : (tagFormat.protectTags (Text.trim source)).text.count '<' ≤ 10 ^ maxDigits := by
    refine (count_hideTags_le 0 _).trans ?_
    rwa [htext]
  rw [Stage.result_runAll_trim_minify]
  by_cases hwants : options.wantsMinify (Text.trim source) = true
  · obtain ⟨answer, hanswer, hretains⟩ :=
      exists_minify hcheck hleaf (Retains.protectTags hliteral) hcount
    obtain ⟨restored, hrestored, htags⟩ := hretains.restore hkept
    have hformat : ({ options, minifier := .standard leaf } : Compiler).settings.tagPlaceholders =
        tagFormat := rfl
    refine ⟨{ source := restored }, ?_, Segment.directives_scan_eq htags⟩
    rw [minified_of_string (c := { options, minifier := .standard leaf }) hwants hanswer, hformat,
      hrestored]
    rfl
  · refine ⟨{ source := Text.trim source }, ?_, rfl⟩
    rw [minified, if_neg hwants]
    rfl

/-- A tag among the attributes of a start tag. -/
theorem directives_minified_checkbox :
    ∃ d, (Stage.runAll { options := { minify := true }, minifier := .standard fun t _ => .ok (.string t) }
        [.trim, .minify] { source := " <input checked=\x22\x22 \x7b\x7b@checkedIf on\x7d\x7d/>".toList }
        {}).result = .ok d ∧
      Segment.directives (Segment.scan d.source) =
        Segment.directives
          (Segment.scan (Text.trim " <input checked=\x22\x22 \x7b\x7b@checkedIf on\x7d\x7d/>".toList)) := by
  have hpieces : Piece.ofText " <input checked=\x22\x22 \x7b\x7b@checkedIf on\x7d\x7d/>".toList
      = [.literal " <input checked=\x22\x22 ".toList, .tag "@checkedIf on".toList,
          .literal "/>".toList] := by
    change Piece.ofText (" <input checked=\x22\x22 ".toList
      ++ (Piece.opening ++ "@checkedIf on".toList ++ Piece.closing ++ ("/>".toList ++ []))) = _
    rw [Piece.ofText_append (by decide) (by decide), Piece.ofText_tag (by decide),
      Piece.ofText_append (by decide) (by decide), Piece.ofText]
    rfl
  have hlength : " <input checked=\x22\x22 \x7b\x7b@checkedIf on\x7d\x7d/>".toList.length
      ≤ 10 ^ maxDigits :=
    (show _ ≤ 10 ^ 2 by decide).trans (Nat.pow_le_pow_right (by decide) (by decide))
  have hcheck : check ({ minify := true } : Options).html.toObject = .ok true := rfl
  refine directives_minified hlength ?_ hcheck fun _ _ => rfl
  intro t ht
  rw [hpieces] at ht
  rcases Piece.literal_mem_around_tag ht with rfl | rfl <;> decide

end Compiler

end Stencil
