import Stencil.Html.Minify
import Stencil.Proofs.Elements
import Stencil.Proofs.Thinning

/-!
# Preparing markup

The standard way to minify rewrites markup twice before it comes back: the comments around script
and style bodies go, and attributes are written anew. Both are thinnings, whatever the markup is.
They cut it at angle brackets, quotes, blanks, slashes and equals signs only, which are in no
placeholder, and what they drop has no placeholder either. A placeholder can stand in any text
between two cuts, so the induction over stretches carries the text since the last cut along.
-/

namespace Stencil.Html

open Placeholder Placeholder.Format

/-- The placeholders for tags of the default settings. -/
abbrev tagFormat : Format := ({} : Settings).tagPlaceholders

/-- Placeholders that markup can be rewritten around. They are names, they are known by the beginning
of the default ones, and none ends in a hyphen, with which the end of a comment begins. -/
structure Endures (f : Format) : Prop where
  isName : f.IsName
  known : ∀ w, f.IsPlaceholder w → ({} : Settings).placeholderPrefix <:+: w
  last : f.closing.getLast? ≠ some '-'

theorem endures_tags : Endures tagFormat := by
  refine ⟨Settings.admitted_default.isName_tags, ?_, by decide⟩
  rintro w ⟨ds, -, rfl⟩
  exact ⟨[], "tag-".toList ++ ds ++ tagFormat.closing, by simp [partText]; rfl⟩

/-! ### Characters at which markup is cut -/

private theorem not_isDigit_of_isBlank {c : Char} (h : Text.isBlank c = true) :
    Text.isDigit c = false := by
  have hzeros : ∀ start ∈ Text.zeros, ∀ k < 10, Text.isBlank (Char.ofNat (start + k)) = false := by
    decide +kernel
  by_contra hdigit
  obtain ⟨start, hstart, k, hk, heq⟩ := Text.exists_of_isDigit (by simpa using hdigit)
  have hblank := hzeros start hstart k hk
  rw [← heq, Char.ofNat_toNat, h] at hblank
  cases hblank

theorem not_isNameChar_of_isBlank {c : Char} (h : Text.isBlank c = true) :
    Settings.isNameChar c = false := by
  have hall : ∀ n < 123, Settings.isNameChar (Char.ofNat n) = true →
      Text.isBlank (Char.ofNat n) = false := by decide +kernel
  by_contra hname
  rw [Bool.not_eq_false] at hname
  have hsmall : c.toNat < 123 := by
    simp only [Settings.isNameChar, Settings.isSmallLetter, Bool.or_eq_true, Bool.and_eq_true,
      decide_eq_true_eq, beq_iff_eq] at hname
    rcases hname with ((⟨-, hz⟩ | ⟨-, hnine⟩) | rfl) | rfl
    · exact Nat.lt_succ_of_le hz
    · exact (Nat.lt_succ_of_le hnine).trans (by decide)
    all_goals decide
  have hblank := hall c.toNat hsmall
  rw [Char.ofNat_toNat, h] at hblank
  cases hblank hname

theorem not_isSmallLetter_of_isBlank {c : Char} (h : Text.isBlank c = true) :
    Settings.isSmallLetter c = false := by
  have hname := not_isNameChar_of_isBlank h
  simp only [Settings.isNameChar, Bool.or_eq_false_iff] at hname
  exact hname.1.1.1

section Cuts

variable {f : Format} (hf : f.IsName) {x y : Text} {c : Char}
include hf

theorem isForeign_of_isBlank (h : Text.isBlank c = true) : f.IsForeign c :=
  hf.isForeign (not_isNameChar_of_isBlank h) (not_isDigit_of_isBlank h)

theorem isForeign_of_isNameChar (h : Attribute.isNameChar c = false) : f.IsForeign c := by
  simp only [Attribute.isNameChar, Bool.not_eq_false', Bool.or_eq_true, beq_iff_eq] at h
  rcases h with (((((h | rfl) | rfl) | rfl) | rfl) | rfl) | rfl
  · exact isForeign_of_isBlank hf h
  all_goals exact hf.isForeign (by decide) (by decide)

theorem isForeign_of_isBareChar (h : Attribute.isBareChar c = false) : f.IsForeign c := by
  simp only [Attribute.isBareChar, Bool.not_eq_false', Bool.or_eq_true, beq_iff_eq] at h
  rcases h with (((((h | rfl) | rfl) | rfl) | rfl) | rfl) | rfl
  · exact isForeign_of_isBlank hf h
  all_goals exact hf.isForeign (by decide) (by decide)

theorem parts_chars {t : Text} (ht : ∀ c ∈ t, Settings.isSmallLetter c = false) (y : Text) :
    f.parts (t ++ y) = t.map .char ++ f.parts y := by
  obtain ⟨a, opening, hopening, ha⟩ := hf.begins
  refine parts_append_of_not_mem (by rw [hopening]; rfl) (fun hmem => ?_) y
  rw [ht a hmem] at ha
  cases ha

end Cuts

theorem isNameChar_of_isBlank {c : Char} (h : Text.isBlank c = true) :
    Attribute.isNameChar c = false := by
  simp [Attribute.isNameChar, h]

/-! ### Script and style elements -/

namespace RawText

theorem dropCommentOpening_cases (body : Text) :
    dropCommentOpening body = body ∨
      ∃ blanks rest, (∀ c ∈ blanks, Text.isBlank c = true) ∧
        body = blanks ++ (commentOpening ++ rest) ∧ dropCommentOpening body = blanks ++ rest := by
  rw [dropCommentOpening]
  split
  · next rest hrest =>
      refine .inr ⟨body.takeWhile Text.isBlank, rest, fun c => List.mem_takeWhile_imp, ?_, rfl⟩
      rw [← Text.dropFront?_eq_some_iff.1 hrest, List.takeWhile_append_dropWhile]
  · exact .inl rfl

theorem dropCommentClosing_cases (body : Text) :
    dropCommentClosing body = body ∨
      ∃ front blanks, (∀ c ∈ blanks, Text.isBlank c = true) ∧
        body = front ++ (commentClosing ++ blanks) ∧ dropCommentClosing body = front ++ blanks := by
  rw [dropCommentClosing]
  split
  · next rest hrest =>
      refine .inr ⟨rest.reverse, (body.reverse.takeWhile Text.isBlank).reverse,
        fun c hc => List.mem_takeWhile_imp (List.mem_reverse.1 hc), ?_, rfl⟩
      have hbody := List.takeWhile_append_dropWhile (p := Text.isBlank) (l := body.reverse)
      rw [Text.dropFront?_eq_some_iff.1 hrest] at hbody
      have hreverse := congrArg List.reverse hbody
      rw [List.reverse_append, List.reverse_append, List.reverse_reverse, List.reverse_reverse,
        List.append_assoc] at hreverse
      exact hreverse.symm
  · exact .inl rfl

def Stretch.onBody (change : Text → Text) : Stretch → Stretch
  | .char c => .char c
  | .element e => .element { e with body := change e.body }

private theorem Stretch.unwrap_eq :
    Stretch.unwrap = Stretch.onBody dropCommentClosing ∘ Stretch.onBody dropCommentOpening := by
  funext s
  cases s <;> rfl

/-- The body of an element stands between angle brackets. -/
def Stretch.IsBracketed : Stretch → Prop
  | .char _ => True
  | .element e => ∃ opening closing, e.opening = opening ++ ['>'] ∧ e.closing = '<' :: closing

private theorem Stretch.IsBracketed.onBody {s : Stretch} (h : s.IsBracketed)
    (change : Text → Text) : (s.onBody change).IsBracketed := by
  cases s with
  | char c => exact h
  | element e => exact h

theorem IsElement.isBracketed {e : RawText} (h : e.IsElement) : (Stretch.element e).IsBracketed := by
  obtain ⟨name, ⟨hname, attributes, hopening, -⟩, hclosing, -⟩ := h
  obtain ⟨tail, htail, -⟩ := hclosing.exists_tail hname.bracket_not_mem
  exact ⟨'<' :: (name ++ attributes), tail, by simp [hopening], htail⟩

private theorem isBracketed_of_mem_stretches {s : Text} {stretch : Stretch}
    (h : stretch ∈ stretches s) : stretch.IsBracketed := by
  obtain ⟨before, after, heq⟩ := List.append_of_mem h
  have hfits := (isReading_stretches s).fits before stretch after heq
  match stretch with
  | .char c => trivial
  | .element e => exact IsElement.isBracketed hfits

section Thinned

variable {f : Format}

theorem thinned_onBody (hf : f.IsName) {change : Text → Text}
    (hchange : ∀ body {a b : List Part}, Thinned a b →
      Thinned (.char '>' :: (f.parts body ++ .char '<' :: a))
        (.char '>' :: (f.parts (change body) ++ .char '<' :: b)))
    {ss : List Stretch} (hss : ∀ s ∈ ss, s.IsBracketed) (x : Text) :
    Thinned (f.parts (x ++ ss.flatMap Stretch.text))
      (f.parts (x ++ (ss.map (Stretch.onBody change)).flatMap Stretch.text)) := by
  have hleft : f.IsForeign '<' := hf.isForeign (by decide) (by decide)
  have hright : f.IsForeign '>' := hf.isForeign (by decide) (by decide)
  induction ss generalizing x with
  | nil => exact .refl _
  | cons s ss ih =>
      obtain ⟨hs, hrest⟩ := List.forall_mem_cons.1 hss
      match s with
      | .char c =>
          have hthinned := ih hrest (x ++ [c])
          rwa [List.append_assoc, List.append_assoc] at hthinned
      | .element e =>
          obtain ⟨opening, closing, hopening, hclosing⟩ := hs
          have htext (body rest : Text) :
              x ++ (e.opening ++ body ++ e.closing ++ rest) =
                (x ++ opening) ++ '>' :: (body ++ '<' :: (closing ++ rest)) := by
            simp [hopening, hclosing]
          rw [List.flatMap_cons, List.map_cons, List.flatMap_cons]
          change Thinned (f.parts (x ++ (e.opening ++ e.body ++ e.closing ++ _)))
            (f.parts (x ++ (e.opening ++ change e.body ++ e.closing ++ _)))
          rw [htext, htext, parts_around_foreign hright, parts_around_foreign hright,
            parts_around_foreign hleft, parts_around_foreign hleft]
          -- The text since the last cut is now the rest of the end tag.
          exact (hchange e.body (ih hrest closing)).keepAll _

private theorem thinned_dropCommentOpening (hf : f.IsName) (body : Text) {a b : List Part}
    (h : Thinned a b) : Thinned (.char '>' :: (f.parts body ++ .char '<' :: a))
      (.char '>' :: (f.parts (dropCommentOpening body) ++ .char '<' :: b)) := by
  have hend : Thinned (.char '<' :: a) (.char '<' :: b) := .keep _ h
  rcases dropCommentOpening_cases body with heq | ⟨blanks, rest, hblanks, hbody, heq⟩
  · rw [heq]
    exact .keep _ (hend.keepAll _)
  · have hletters : ∀ c ∈ blanks, Settings.isSmallLetter c = false :=
      fun c hc => not_isSmallLetter_of_isBlank (hblanks c hc)
    have hseparators : ∀ c ∈ '>' :: blanks, Attribute.isNameChar c = false :=
      List.forall_mem_cons.2 ⟨rfl, fun c hc => isNameChar_of_isBlank (hblanks c hc)⟩
    have hgap := Thinned.gap ('>' :: blanks ++ commentOpening) (List.cons_ne_nil _ _) hseparators
      (hend.keepAll (f.parts rest))
    rw [heq, hbody, parts_chars hf hletters, parts_chars hf hletters, parts_chars hf (by decide)]
    simpa using hgap

private theorem thinned_dropCommentClosing (hf : f.IsName) (hlast : f.closing.getLast? ≠ some '-')
    (body : Text) {a b : List Part} (h : Thinned a b) :
    Thinned (.char '>' :: (f.parts body ++ .char '<' :: a))
      (.char '>' :: (f.parts (dropCommentClosing body) ++ .char '<' :: b)) := by
  rcases dropCommentClosing_cases body with heq | ⟨front, blanks, hblanks, hbody, heq⟩
  · have hend : Thinned (.char '<' :: a) (.char '<' :: b) := .keep _ h
    rw [heq]
    exact .keep _ (hend.keepAll _)
  · have hletters : ∀ c ∈ blanks, Settings.isSmallLetter c = false :=
      fun c hc => not_isSmallLetter_of_isBlank (hblanks c hc)
    have hparts : f.parts blanks = blanks.map .char := by
      simpa using parts_chars hf hletters []
    -- A placeholder in front of the mark would end in one of its hyphens.
    have hend : f.closing.getLast? = some (f.closing.getLast hf.closing_ne_nil) :=
      List.getLast?_eq_some_getLast hf.closing_ne_nil
    have hhyphen : f.closing.getLast hf.closing_ne_nil ∉ "--".toList := by
      intro hmem
      rw [hend] at hlast
      exact hlast (congrArg some (by simpa using hmem))
    have hclean : f.Clean front ("--".toList ++ '>' :: blanks) :=
      clean_of_foreign_right hend (hf.isForeign (by decide) (by decide)) hhyphen front blanks
    have hcut : f.parts (front ++ (commentClosing ++ blanks)) =
        f.parts front ++ (commentClosing ++ blanks).map .char := by
      rw [List.map_append, ← hparts, ← parts_chars hf (by decide)]
      exact parts_append hclean
    have hseparators : ∀ c ∈ blanks ++ ['<'], Attribute.isNameChar c = false := by
      intro c hc
      rcases List.mem_append.1 hc with hc | hc
      · exact isNameChar_of_isBlank (hblanks c hc)
      · rw [List.mem_singleton.1 hc]
        rfl
    have hgap := Thinned.gap (commentClosing ++ blanks ++ ['<']) (by simp) hseparators h
    rw [heq, hbody, hcut, parts_append_of_foreign front fun c hc =>
      isForeign_of_isBlank hf (hblanks c (List.mem_of_head? hc)), hparts]
    simpa using Thinned.keep (.char '>') (hgap.keepAll (f.parts front))

/-- Removing the comments around bodies thins the markup in two steps, one for each mark. -/
theorem thinned_unwrap (hf : Endures f) (s : Text) :
    ∃ middle, Thinned (f.parts s) (f.parts middle) ∧
      Thinned (f.parts middle) (f.parts (unwrap s)) := by
  have hstretches : ∀ stretch ∈ stretches s, stretch.IsBracketed :=
    fun _ => isBracketed_of_mem_stretches
  refine ⟨((stretches s).map (Stretch.onBody dropCommentOpening)).flatMap Stretch.text, ?_, ?_⟩
  · have hfirst := thinned_onBody hf.isName (thinned_dropCommentOpening hf.isName) hstretches []
    rwa [List.nil_append, List.nil_append, flatMap_text_stretches] at hfirst
  · have hsecond := thinned_onBody hf.isName (thinned_dropCommentClosing hf.isName hf.last)
      (List.forall_mem_map.2 fun stretch hs => (hstretches stretch hs).onBody dropCommentOpening) []
    rwa [List.nil_append, List.nil_append, List.map_map, ← Stretch.unwrap_eq] at hsecond

end Thinned

theorem unwrapBody_sublist (body : Text) : (unwrapBody body).Sublist body := by
  have hopening (t : Text) : (dropCommentOpening t).Sublist t := by
    rcases dropCommentOpening_cases t with heq | ⟨blanks, rest, -, ht, heq⟩
    · rw [heq]
    · rw [heq, ht]
      exact (List.sublist_append_right _ _).append_left _
  have hclosing (t : Text) : (dropCommentClosing t).Sublist t := by
    rcases dropCommentClosing_cases t with heq | ⟨front, blanks, -, ht, heq⟩
    · rw [heq]
    · rw [heq, ht]
      exact (List.sublist_append_right _ _).append_left _
  exact (hclosing _).trans (hopening body)

theorem unwrap_sublist (s : Text) : (unwrap s).Sublist s := by
  have hall (ss : List Stretch) :
      ((ss.map Stretch.unwrap).flatMap Stretch.text).Sublist (ss.flatMap Stretch.text) := by
    induction ss with
    | nil => exact .slnil
    | cons stretch ss ih =>
        have hstretch : stretch.unwrap.text.Sublist stretch.text := by
          cases stretch with
          | char c => exact List.Sublist.refl _
          | element e =>
              exact ((unwrapBody_sublist e.body).append_left e.opening).append_right e.closing
        exact hstretch.append ih
  have hs := hall (stretches s)
  rwa [flatMap_text_stretches] at hs

end RawText

end Stencil.Html
