import Stencil.Proofs.Retention
import Stencil.Proofs.Separation

/-!
# Values of boolean attributes

The value of a boolean attribute is dropped unless it may hold a tag. While tags are hidden, a value
is taken to hold one if it has the beginning of a placeholder, but always of the default settings,
whatever the settings of the compilation are. Under settings whose placeholders have it, a value
with a tag is kept, and the tag comes back in its place. Under other settings the value is dropped,
and the tag with it.
-/

namespace Stencil

open Placeholder Placeholder.Format

namespace Html

/-! ### Settings whose placeholders are known -/

/-- The placeholders of the settings have the beginning of the default ones. -/
def HasKnownPlaceholders (s : Settings) : Prop :=
  ({} : Settings).placeholderPrefix <:+: s.placeholderPrefix ∨
    ({} : Settings).placeholderPrefix <:+: s.placeholderSuffix

instance (s : Settings) : Decidable (HasKnownPlaceholders s) := inferInstanceAs (Decidable (_ ∨ _))

private theorem endures_of_known {s : Settings} (hs : s.Admitted) (hknown : HasKnownPlaceholders s)
    (hlast : s.placeholderSuffix.getLast? ≠ some '-') : Endures s.tagPlaceholders := by
  refine ⟨hs.isName_tags, ?_, hlast⟩
  rintro w ⟨ds, -, rfl⟩
  rcases hknown with hopening | hclosing
  · exact hopening.trans ⟨[], "tag".toList ++ ['-'] ++ ds ++ s.placeholderSuffix, by
      simp [partText, Settings.tagPlaceholders, Settings.placeholders]⟩
  · exact hclosing.trans (List.suffix_append _ _).isInfix

/-- A placeholder that has the beginning of the default ones has it in one of the parts that the
settings choose. -/
theorem known_of_isInfix {s : Settings}
    (h : ({} : Settings).placeholderPrefix <:+: s.tagPlaceholders.make 0) :
    HasKnownPlaceholders s := by
  have hmake : s.tagPlaceholders.make 0 =
      (s.placeholderPrefix ++ "tag-".toList) ++ '0' :: s.placeholderSuffix := by
    simp [make, Settings.tagPlaceholders, Settings.placeholders]
    rfl
  rw [hmake] at h
  rcases Text.isInfix_or_of_not_mem (by decide) h with hfront | hend
  · rcases List.infix_append_iff.1 hfront with hopening | htag | ⟨front, tail, heq, hsuffix, hstart⟩
    · exact .inl hopening
    · exact absurd htag (by decide)
    · have htails : ∀ u ∈ "tag-".toList.inits,
          u <:+ ({} : Settings).placeholderPrefix → u = [] := by decide
      obtain rfl := htails tail ((List.mem_inits _ _).2 hstart) ⟨front, heq.symm⟩
      rw [List.append_nil] at heq
      exact .inl (heq ▸ hsuffix.isInfix)
  · exact .inr hend

/-! ### Where an attribute is written -/

theorem Attribute.spaced_append (collapse : Bool) (as bs : List Attribute) :
    spaced collapse (as ++ bs) = spaced collapse as ++ spaced collapse bs :=
  List.flatMap_append

private theorem Attribute.text_of_hole_mem {f : Format} (hf : Endures f) {value ds : Text}
    (h : .hole ds ∈ f.parts value) (collapse : Bool) (name : Text) :
    text collapse ⟨name, some value⟩ = name ++ '=' :: value := by
  have htag : mayHoldTag value = true := by
    by_contra hnot
    rw [Bool.not_eq_true] at hnot
    rw [parts_of_not_mayHoldTag hf hnot] at h
    simp at h
  rw [text_some, htag, Bool.not_true, Bool.and_false]
  rfl

namespace Markup

/-- An attribute is written between a space and a character that is in no name. -/
theorem exists_tidy_eq (collapse : Bool) {ms : List Markup} {t : StartTag} {a : Attribute}
    (ht : .tag t ∈ ms) (ha : a ∈ Attribute.readAll t.attributes) :
    ∃ x e y, Attribute.isNameChar e = false ∧
      tidy collapse ms = x ++ ' ' :: (a.text collapse ++ e :: y) := by
  obtain ⟨before, after, rfl⟩ := List.append_of_mem ht
  obtain ⟨as, bs, has⟩ := List.append_of_mem ha
  obtain ⟨e, tail, hending, he⟩ := StartTag.exists_ending t.closed
  have hne : Attribute.readAll t.attributes ≠ [] := by simp [has]
  have hattributes : t.hasAttributes = true := by simpa [StartTag.hasAttributes] using hne
  have hwithin := t.withAttributes_attributeText collapse hattributes
  rw [tidy_append, tidy, if_pos hattributes, hwithin, hending, has, Attribute.spaced_append]
  cases bs with
  | nil =>
      refine ⟨tidy collapse before ++ '<' :: t.name ++ Attribute.spaced collapse as, e,
        tail ++ tidy collapse after, he, ?_⟩
      simp [Attribute.spaced]
  | cons b bs =>
      refine ⟨tidy collapse before ++ '<' :: t.name ++ Attribute.spaced collapse as, ' ',
        b.text collapse ++ Attribute.spaced collapse bs ++ e :: tail ++ tidy collapse after, rfl,
        ?_⟩
      simp [Attribute.spaced]

end Markup

/-! ### Values that are kept -/

/-- A template that comes back as it is if nothing is done to its protected text, which has no
placeholder for attributes. The bound on the length is that the placeholders can be read. -/
structure Restorable (f : Format) (source : Text) : Prop where
  short : source.length ≤ 10 ^ maxDigits
  lacks : f.Lacks source
  restored : f.restore (f.protectTags source).kept (f.protectTags source).text = .ok source
  no_attributes : ∀ ds, ¬attributeFormat.Holds (f.protectTags source).text ds

namespace Restorable

variable {f : Format} {source : Text}

theorem length_kept_le (h : Restorable f source) :
    (f.protectTags source).kept.length ≤ 10 ^ maxDigits := by
  have hlength := length_tags_le (Piece.ofText source)
  rw [Piece.flatMap_text_ofText] at hlength
  exact hlength.trans h.short

theorem count_le (h : Restorable f source) (hf : f.IsName) :
    (f.protectTags source).text.count '<' ≤ 10 ^ maxDigits := by
  have hcount := count_hideTags_of_isForeign (hf.isForeign (c := '<') (by decide) (by decide)) 0
    (Piece.ofText source)
  rw [Piece.flatMap_text_ofText] at hcount
  exact hcount.trans h.short

theorem retains (h : Restorable f source) (hf : Endures f) :
    Retains f source (f.protectTags source).text :=
  .of_separates hf
    ((restore_protectTags_eq_iff_separates hf.isName h.lacks h.length_kept_le).1 h.restored) h.lacks
    h.no_attributes

end Restorable

/-- Every tag in a value of an attribute is in the other text, in the attribute that it was in. -/
def ShowsValues (f : Format) (source other : Text) : Prop :=
  ∀ t, .tag t ∈ Markup.ofText (RawText.unwrap (f.protectTags source).text) →
    ∀ name value, ⟨name, some value⟩ ∈ Attribute.readAll t.attributes →
      ∀ ds, .hole ds ∈ f.parts value →
        ∃ k tag shown, ds = Text.ofNat k ∧ (f.protectTags source).kept[k]? = some tag ∧
          tag <:+: shown ∧
          f.restore (f.protectTags source).kept (name ++ '=' :: value) = .ok shown ∧
          shown <:+: other

theorem Retains.showsValues {f : Format} {source restored : Text}
    (h : Retains f source (RawText.unwrap (f.protectTags source).text))
    (hrestored : f.restore (f.protectTags source).kept (Markup.tidy true
      (Markup.ofText (RawText.unwrap (f.protectTags source).text))) = .ok restored) :
    ShowsValues f source restored := by
  intro t ht name value ha ds hds
  have hf := h.endures
  have hequals : f.IsForeign '=' := hf.isName.isForeign (by decide) (by decide)
  have hspace : f.IsForeign ' ' := hf.isName.isForeign (by decide) (by decide)
  obtain ⟨x, e, y, he, htidy⟩ := Markup.exists_tidy_eq true ht ha
  have hend := isForeign_of_isNameChar hf.isName he
  have hretains := h.tidy true
  rw [Attribute.text_of_hole_mem hf hds] at htidy
  rw [htidy] at hrestored hretains
  have hmem : .hole ds ∈ f.parts (name ++ '=' :: value) := by
    rw [parts_around_foreign hequals]
    simp [hds]
  obtain ⟨k, tag, hk, rfl⟩ : ∃ k tag, (f.protectTags source).kept[k]? = some tag ∧
      ds = Text.ofNat k := by
    refine hretains.exists_of_hole_mem ?_
    rw [parts_between hspace hend]
    simp [hmem]
  obtain ⟨shown, hshown, hwithin⟩ := exists_restore_between hspace hend hrestored
  have htag := filled_isInfix_of_restore hshown hmem
  rw [filled_ofNat hk] at htag
  exact ⟨k, tag, shown, rfl, hk, htag, hshown, hwithin⟩

end Html

namespace Compiler

open Html

/-- The compiler that minifies every template in the standard way. -/
def standard (s : Settings) (leaf : External) : Compiler :=
  { options := { minify := true }, settings := s, minifier := .standard leaf }

section Standard

variable {s : Settings} {leaf : External}
  (hleaf : ∀ text object, leaf text object = .ok (.string text))
include hleaf

theorem minified_standard (hs : s.Admitted) {source restored : Text}
    (h : Restorable s.tagPlaceholders source)
    (hplain : ∀ ds, ¬attributeFormat.Holds
      (RawText.unwrap (s.tagPlaceholders.protectTags source).text) ds)
    (hrestored : s.tagPlaceholders.restore (s.tagPlaceholders.protectTags source).kept
      (Markup.tidy true (Markup.ofText
        (RawText.unwrap (s.tagPlaceholders.protectTags source).text))) = .ok restored) :
    (standard s leaf).minified source = .ok restored := by
  have hcheck : check (standard s leaf).options.html.toObject = .ok true := rfl
  have hanswer : ((standard s leaf).answer source).result = .ok (.string (Markup.tidy true
      (Markup.ofText (RawText.unwrap (s.tagPlaceholders.protectTags source).text)))) :=
    result_minify_hidden hleaf hcheck hplain (h.count_le hs.isName_tags)
  have hsettings : (standard s leaf).settings = s := rfl
  rw [minified_of_string rfl hanswer, hsettings, hrestored]

theorem exists_minified_standard (hs : s.Admitted) (hknown : HasKnownPlaceholders s)
    (hlast : s.placeholderSuffix.getLast? ≠ some '-') {source : Text}
    (h : Restorable s.tagPlaceholders source) :
    ∃ text, (standard s leaf).minified source = .ok text ∧
      Segment.directives (Segment.scan text) = Segment.directives (Segment.scan source) ∧
      ShowsValues s.tagPlaceholders source text := by
  have hretains : Retains s.tagPlaceholders source
      (RawText.unwrap (s.tagPlaceholders.protectTags source).text) :=
    (h.retains (endures_of_known hs hknown hlast)).prepare
      (standard s leaf).options.html.toObject
  obtain ⟨restored, hrestored, htags⟩ := (hretains.tidy true).restore h.length_kept_le
  exact ⟨restored, minified_standard hleaf hs h hretains.no_attributes hrestored,
    Segment.directives_scan_eq htags, hretains.showsValues hrestored⟩

end Standard

end Compiler

/-! ### Reading a start tag -/

namespace Html

namespace RawText

private theorem stretches_of_not_mem {s : Text} (h : '<' ∉ s) : stretches s = s.map .char := by
  induction s with
  | nil => rw [stretches]; rfl
  | cons c s ih =>
      obtain ⟨hc, hs⟩ := not_or.1 (mt List.mem_cons.2 h)
      have hnone : match? (c :: s) = none := by
        rw [match?, opening?]
        · rfl
        · rintro t ⟨⟩
          exact hc rfl
      rw [stretches_cons hnone, ih hs]
      rfl

end RawText

theorem Markup.ofText_of_match? {s rest : Text} {t : StartTag}
    (h : StartTag.match? s = some (t, rest)) : ofText s = .tag t :: ofText rest := by
  rw [ofText]
  split
  · next heq =>
      rw [h] at heq
      obtain ⟨rfl, rfl⟩ := Prod.mk.inj (Option.some.inj heq)
      rfl
  · next heq => rw [h] at heq; cases heq

namespace StartTag

theorem cutEnd?_quote {quoted : Text} (h : '\x22' ∉ quoted) (r : Text) :
    cutEnd? ('\x22' :: (quoted ++ '\x22' :: r)) =
      (cutEnd? r).map fun p => ('\x22' :: quoted ++ '\x22' :: p.1, p.2) := by
  have hcut := Text.cutAfter?_append h r
  rw [cutEnd?, if_neg (by decide), if_pos (.inl rfl)]
  · split
    · next heq =>
        rw [hcut] at heq
        obtain ⟨rfl, rfl⟩ := Prod.mk.inj (Option.some.inj heq)
        rfl
    · next heq => rw [hcut] at heq; cases heq
  · simp

theorem cutEnd?_append {front : Text} (h : ∀ c ∈ front, c ∉ ['/', '>', '\x22', '\x27']) (r : Text) :
    cutEnd? (front ++ r) = (cutEnd? r).map fun p => (front ++ p.1, p.2) := by
  induction front with
  | nil => simp
  | cons c front ih =>
      obtain ⟨hc, hfront⟩ := List.forall_mem_cons.1 h
      simp only [List.mem_cons, List.not_mem_nil, or_false, not_or] at hc
      rw [List.cons_append, cutEnd?, if_neg hc.2.1, if_neg (by simp [hc]), ih hfront,
        Option.map_map]
      · rfl
      · intro _ hslash
        exact absurd hslash hc.1

end StartTag

namespace Attribute

private theorem readAll_quote {c : Char} {name value : Text}
    (hname : ∀ d ∈ c :: name, isNameChar d = true) (hvalue : '\x22' ∉ value) (r : Text) :
    readAll (c :: name ++ '=' :: '\x22' :: (value ++ '\x22' :: r)) =
      ⟨c :: name, some ('\x22' :: (value ++ ['\x22']))⟩ :: readAll r := by
  obtain ⟨hc, hname⟩ := List.forall_mem_cons.1 hname
  have hcut := Text.cutAfter?_append hvalue r
  have hread : value? ('=' :: '\x22' :: (value ++ '\x22' :: r)) =
      some ('\x22' :: (value ++ ['\x22']), r) := by
    change Option.map _ (Text.cutAfter? '\x22' (value ++ '\x22' :: r)) = _
    rw [hcut]
    rfl
  have hequals : isNameChar '=' = false := by decide
  have htake : (name ++ '=' :: '\x22' :: (value ++ '\x22' :: r)).takeWhile isNameChar = name := by
    rw [List.takeWhile_append_of_pos hname, List.takeWhile_cons_of_neg (by simp [hequals]),
      List.append_nil]
  have hdrop : (name ++ '=' :: '\x22' :: (value ++ '\x22' :: r)).dropWhile isNameChar =
      '=' :: '\x22' :: (value ++ '\x22' :: r) := by
    rw [List.dropWhile_append_of_pos hname, List.dropWhile_cons_of_neg (by simp [hequals])]
  rw [List.cons_append, readAll_of_value hc (hdrop ▸ hread), htake]

end Attribute

/-! ### A value that is dropped -/

/-- A start tag with a value of a boolean attribute. It has no small letters but those of the value,
so its text begins no placeholder. -/
def checkbox (value : Text) : Text :=
  '<' :: 'A' :: ' ' :: ("CHECKED=".toList ++ '\x22' :: (value ++ '\x22' :: ['>']))

def taggedCheckbox : Text := checkbox "\x7b\x7ba\x7d\x7d".toList

section Value

variable {value : Text}

private theorem unwrap_checkbox (h : '<' ∉ value) :
    RawText.unwrap (checkbox value) = checkbox value := by
  have hnone : RawText.match? (checkbox value) = none := rfl
  have hstretches : RawText.stretches (checkbox value) = (checkbox value).map .char := by
    rw [checkbox] at hnone ⊢
    rw [RawText.stretches_cons hnone, RawText.stretches_of_not_mem (by simp [h])]
    rfl
  rw [RawText.unwrap, hstretches, List.map_map, List.flatMap_map]
  exact List.flatMap_singleton' _

private theorem ofText_checkbox (h : '\x22' ∉ value) :
    Markup.ofText (checkbox value) =
      [.tag ⟨['A'], ' ' :: ("CHECKED=".toList ++ '\x22' :: (value ++ ['\x22'])), false⟩] := by
  have hend : StartTag.cutEnd? ("CHECKED=".toList ++ '\x22' :: (value ++ '\x22' :: ['>'])) =
      some ("CHECKED=".toList ++ '\x22' :: (value ++ ['\x22']), false, []) := by
    rw [StartTag.cutEnd?_append (by decide), StartTag.cutEnd?_quote h]
    simp [StartTag.cutEnd?]
  have hmatch : StartTag.match? (checkbox value) =
      some (⟨['A'], ' ' :: ("CHECKED=".toList ++ '\x22' :: (value ++ ['\x22'])), false⟩, []) := by
    change Option.map _ (StartTag.cutEnd? ("CHECKED=".toList ++ _)) = _
    rw [hend]
    rfl
  rw [Markup.ofText_of_match? hmatch, Markup.ofText]
  rfl

private theorem tidy_checkbox (h : '\x22' ∉ value)
    (hdrop : Attribute.mayHoldTag ('\x22' :: (value ++ ['\x22'])) = false) :
    Markup.tidy true (Markup.ofText (checkbox value)) = "<A CHECKED>".toList := by
  have hread : Attribute.readAll (' ' :: ("CHECKED=".toList ++ '\x22' :: (value ++ ['\x22']))) =
      [⟨"CHECKED".toList, some ('\x22' :: (value ++ ['\x22']))⟩] := by
    have hletters : ∀ d ∈ 'C' :: "HECKED".toList, Attribute.isNameChar d = true := by decide
    have hname := Attribute.readAll_quote hletters h []
    rw [Attribute.readAll_cons rfl]
    rwa [Attribute.readAll_nil] at hname
  have hattributes : StartTag.hasAttributes
      ⟨['A'], ' ' :: ("CHECKED=".toList ++ '\x22' :: (value ++ ['\x22'])), false⟩ = true := by
    rw [StartTag.hasAttributes, hread]
    rfl
  have htext : Attribute.text true ⟨"CHECKED".toList, some ('\x22' :: (value ++ ['\x22']))⟩ =
      "CHECKED".toList := by
    rw [Attribute.text_some, hdrop]
    rfl
  rw [ofText_checkbox h, Markup.tidy, if_pos hattributes, StartTag.attributeText, hread,
    List.map_singleton, htext]
  rfl

end Value

theorem pieces_taggedCheckbox : Piece.ofText taggedCheckbox =
    [.literal "<A CHECKED=\x22".toList, .tag ['a'], .literal "\x22>".toList] := by
  decide +kernel

section Tagged

variable {f : Format}

theorem protectTags_taggedCheckbox (f : Format) :
    f.protectTags taggedCheckbox = ⟨checkbox (f.make 0), ["\x7b\x7ba\x7d\x7d".toList]⟩ := by
  rw [protectTags, pieces_taggedCheckbox]
  rfl

private theorem lacks_taggedCheckbox (hf : f.IsName) : f.Lacks taggedCheckbox := by
  obtain ⟨a, opening, hopening, ha⟩ := hf.begins
  intro t ht ds hds
  have hmem : a ∈ t := hds.opening_isInfix.subset (by simp [hopening])
  have hletters : ∀ c ∈ t, Settings.isSmallLetter c = false := by
    rw [pieces_taggedCheckbox] at ht
    rcases Piece.literal_mem_around_tag ht with rfl | rfl <;> decide
  rw [hletters a hmem] at ha
  cases ha

private theorem separates_taggedCheckbox (hquote : f.IsForeign '\x22') :
    f.Separates 0 (Piece.ofText taggedCheckbox) := by
  rw [pieces_taggedCheckbox]
  refine ⟨?_, ?_, Clean.nil_right _, trivial⟩
  · rintro left right ⟨front, hfront⟩ - hl - hw
    have hlast : left.getLast? = some '\x22' := by
      rw [← List.getLast?_append_of_ne_nil front hl, hfront]
      rfl
    exact hquote.not_mem hw (List.mem_append_left _ (List.mem_of_getLast? hlast))
  · rintro right ⟨rest, hrest⟩ hne hw
    obtain ⟨c, right, rfl⟩ := List.exists_cons_of_ne_nil hne
    have hc : c = '\x22' := (List.cons.inj hrest).1
    exact hquote.not_mem hw (by simp [hc])

end Tagged

section Unknown

variable {s : Settings} (hknown : ¬HasKnownPlaceholders s)
include hknown

theorem not_isInfix_checkbox :
    ¬({} : Settings).placeholderPrefix <:+: checkbox (s.tagPlaceholders.make 0) := by
  have hquote : '\x22' ∉ ({} : Settings).placeholderPrefix := by decide
  intro hwithin
  rcases Text.isInfix_or_of_not_mem (x := "<A CHECKED=".toList) hquote hwithin with hfront | hbehind
  · exact absurd hfront (by decide)
  · rcases Text.isInfix_or_of_not_mem hquote hbehind with hvalue | hend
    · exact hknown (known_of_isInfix hvalue)
    · exact absurd hend (by decide)

theorem no_attributes_checkbox (ds : Text) :
    ¬attributeFormat.Holds (checkbox (s.tagPlaceholders.make 0)) ds := by
  intro hds
  have hopening : ({} : Settings).placeholderPrefix <+: attributeFormat.opening :=
    ⟨"attrs-".toList, rfl⟩
  exact not_isInfix_checkbox hknown (hopening.isInfix.trans hds.opening_isInfix)

private theorem not_mayHoldTag_make (hbrace : '{' ∉ s.tagPlaceholders.make 0) :
    Attribute.mayHoldTag ('\x22' :: (s.tagPlaceholders.make 0 ++ ['\x22'])) = false := by
  have hvalue : '\x22' :: (s.tagPlaceholders.make 0 ++ ['\x22']) <:+:
      checkbox (s.tagPlaceholders.make 0) :=
    ⟨"<A CHECKED=".toList, ['>'], by simp [checkbox]⟩
  rw [Attribute.mayHoldTag, Bool.or_eq_false_iff, ← Bool.not_eq_true, ← Bool.not_eq_true,
    Attribute.occurs_iff, Attribute.occurs_iff]
  refine ⟨fun hbraces => ?_, fun hbegin => not_isInfix_checkbox hknown (hbegin.trans hvalue)⟩
  have hmem := hbraces.subset (List.mem_cons_self (a := '{'))
  simp [hbrace] at hmem

theorem restorable_taggedCheckbox (hs : s.Admitted) :
    Restorable s.tagPlaceholders taggedCheckbox := by
  have hf := hs.isName_tags
  have hlacks := lacks_taggedCheckbox hf
  have hcount : (s.tagPlaceholders.protectTags taggedCheckbox).kept.length ≤ 10 ^ maxDigits := by
    rw [protectTags_taggedCheckbox]
    exact Nat.one_le_pow _ _ (by decide)
  have hshort : taggedCheckbox.length ≤ 10 ^ maxDigits :=
    (show _ ≤ 10 ^ 2 by decide).trans (Nat.pow_le_pow_right (by decide) (by decide))
  refine ⟨hshort, hlacks, ?_, ?_⟩
  · exact (restore_protectTags_eq_iff_separates hf hlacks hcount).2
      (separates_taggedCheckbox (hf.isForeign (by decide) (by decide)))
  · rw [protectTags_taggedCheckbox]
    exact no_attributes_checkbox hknown

end Unknown

end Html

namespace Compiler

open Html

private theorem minified_taggedCheckbox {s : Settings} (hs : s.Admitted)
    (hknown : ¬HasKnownPlaceholders s) {leaf : External}
    (hleaf : ∀ text object, leaf text object = .ok (.string text)) :
    (standard s leaf).minified taggedCheckbox = .ok "<A CHECKED>".toList := by
  have hf := hs.isName_tags
  have hmake (c : Char) (hname : Settings.isNameChar c = false) (hdigit : Text.isDigit c = false) :
      c ∉ s.tagPlaceholders.make 0 :=
    (hf.isForeign hname hdigit).not_mem (s.tagPlaceholders.isPlaceholder_make 0)
  have hunwrap := unwrap_checkbox (hmake '<' (by decide) (by decide))
  have htidy := tidy_checkbox (hmake '\x22' (by decide) (by decide))
    (not_mayHoldTag_make hknown (hmake '{' (by decide) (by decide)))
  have hletters : ∀ c ∈ "<A CHECKED>".toList, Settings.isSmallLetter c = false := by decide
  have hparts := parts_chars hf hletters []
  rw [List.append_nil, parts_nil, List.append_nil] at hparts
  refine minified_standard hleaf hs (restorable_taggedCheckbox hknown hs) ?_ ?_
  · rw [protectTags_taggedCheckbox, hunwrap]
    exact no_attributes_checkbox hknown
  · rw [protectTags_taggedCheckbox, hunwrap, htidy, restore, hparts, fillAll_eq_ok (by simp),
      flatMap_filled_map_char]

/-- Directives in the values of attributes are kept under settings whose placeholders have the
beginning of the default ones and do not end in a hyphen. Under settings whose placeholders do not
have this beginning there is a template of which the only directive is dropped. -/
theorem attributes_minified {s : Settings} (hs : s.Admitted) {leaf : External}
    (hleaf : ∀ text object, leaf text object = .ok (.string text)) :
    (HasKnownPlaceholders s → s.placeholderSuffix.getLast? ≠ some '-' →
      ∀ source, Restorable s.tagPlaceholders (Text.trim source) →
        ∃ text, (standard s leaf).minified (Text.trim source) = .ok text ∧
          ((standard s leaf).compile source).result = (standard s leaf).finished text ∧
          Segment.directives (Segment.scan text) =
            Segment.directives (Segment.scan (Text.trim source)) ∧
          ShowsValues s.tagPlaceholders (Text.trim source) text) ∧
    (¬HasKnownPlaceholders s →
      Restorable s.tagPlaceholders taggedCheckbox ∧
        ((standard s leaf).compile taggedCheckbox).result =
          .ok ((standard s leaf).wrapped "<A CHECKED>".toList)) := by
  constructor
  · intro hknown hlast source h
    obtain ⟨text, htext, hdirectives, hvalues⟩ := exists_minified_standard hleaf hs hknown hlast h
    exact ⟨text, htext, by rw [result_compile_eq, htext], hdirectives, hvalues⟩
  · intro hknown
    have htrim : Text.trim taggedCheckbox = taggedCheckbox := by decide
    have htag : ¬Piece.HasTag "<A CHECKED>".toList := Piece.not_hasTag_of_not_mem (by decide)
    refine ⟨restorable_taggedCheckbox hknown hs, ?_⟩
    rw [result_compile_eq, htrim, minified_taggedCheckbox hs hknown hleaf]
    exact finished_of_not_hasTag _ htag

def checkedInput : Text := "<input checked=\x22\x7b\x7ba\x7d\x7d\x22>".toList

theorem pieces_checkedInput : Piece.ofText checkedInput =
    [.literal "<input checked=\x22".toList, .tag ['a'], .literal "\x22>".toList] := by
  decide +kernel

theorem literals_checkedInput {p : Text} (h : ¬p <:+: "<input checked=\x22".toList)
    (h' : ¬p <:+: "\x22>".toList) : ∀ t, .literal t ∈ Piece.ofText checkedInput → ¬p <:+: t := by
  intro t ht
  rw [pieces_checkedInput] at ht
  rcases Piece.literal_mem_around_tag ht with rfl | rfl
  · exact h
  · exact h'

/-- The prefix has the default one behind other characters. -/
def longPrefix : Settings := { placeholderPrefix := "x-templatize-".toList }

private theorem restorable_checkedInput : Restorable longPrefix.tagPlaceholders checkedInput := by
  refine ⟨?_, ?_, by decide +kernel, ?_⟩
  · exact (show _ ≤ 10 ^ 2 by decide).trans (Nat.pow_le_pow_right (by decide) (by decide))
  · intro t ht ds hds
    exact literals_checkedInput (by decide) (by decide) t ht hds.opening_isInfix
  · intro ds hds
    have hopening := hds.opening_isInfix
    rw [protectTags, pieces_checkedInput] at hopening
    exact absurd hopening (by decide +kernel)

theorem attributes_minified_long_prefix :
    longPrefix.Admitted ∧
      ∃ text, ((standard longPrefix fun text _ => .ok (.string text)).compile checkedInput).result =
          (standard longPrefix fun text _ => .ok (.string text)).finished text ∧
        Segment.directives (Segment.scan text) =
          [(⟨.interpolation, ['a']⟩, "\x7b\x7ba\x7d\x7d".toList)] ∧
        "checked=\x22\x7b\x7ba\x7d\x7d\x22".toList <:+: text := by
  have hs : longPrefix.Admitted := by decide
  have hkept : (longPrefix.tagPlaceholders.protectTags (Text.trim checkedInput)).kept =
      ["\x7b\x7ba\x7d\x7d".toList] := by decide +kernel
  have hattribute : longPrefix.tagPlaceholders.restore ["\x7b\x7ba\x7d\x7d".toList]
      ("checked".toList ++ '=' :: "\x22x-templatize-tag-0-ph\x22".toList) =
        .ok "checked=\x22\x7b\x7ba\x7d\x7d\x22".toList := by decide +kernel
  have hrestorable : Restorable longPrefix.tagPlaceholders (Text.trim checkedInput) := by
    have htrim : Text.trim checkedInput = checkedInput := by decide
    rw [htrim]
    exact restorable_checkedInput
  obtain ⟨text, -, hcompile, hdirectives, hvalues⟩ := (attributes_minified hs fun _ _ => rfl).1
    (.inl (by decide)) (by decide) checkedInput hrestorable
  obtain ⟨k, tag, shown, -, -, -, hshown, hwithin⟩ :=
    hvalues ⟨"input".toList, " checked=\x22x-templatize-tag-0-ph\x22".toList, false⟩
      (by decide +kernel) "checked".toList "\x22x-templatize-tag-0-ph\x22".toList
      (by decide +kernel) ['0'] (by decide +kernel)
  rw [hkept, hattribute] at hshown
  cases hshown
  exact ⟨hs, text, hcompile, hdirectives.trans (by decide +kernel), hwithin⟩

/-- The prefix has nothing of the default one. -/
def shortPrefix : Settings := { placeholderPrefix := "x-".toList }

theorem attributes_minified_short_prefix :
    shortPrefix.Admitted ∧
      (∀ t, .literal t ∈ Piece.ofText checkedInput →
        ¬shortPrefix.placeholderPrefix <:+: t ∧ ¬({} : Settings).placeholderPrefix <:+: t) ∧
      ((standard shortPrefix fun text _ => .ok (.string text)).compile checkedInput).result =
        .ok "function(m0)\x7breturn '<input checked>';\x7d".toList := by
  refine ⟨by decide, fun t ht => ⟨?_, ?_⟩, ?_⟩
  · exact literals_checkedInput (by decide) (by decide) t ht
  · exact literals_checkedInput (by decide) (by decide) t ht
  · have hoption : ((standard shortPrefix fun text _ => .ok (.string text)).compile
        checkedInput).result.toOption =
          some "function(m0)\x7breturn '<input checked>';\x7d".toList := by decide +kernel
    match hresult : ((standard shortPrefix fun text _ => .ok (.string text)).compile
        checkedInput).result with
    | .ok code =>
        rw [hresult] at hoption
        exact congrArg Except.ok (Option.some.inj hoption)
    | .error e => rw [hresult] at hoption; cases hoption

end Compiler

end Stencil
