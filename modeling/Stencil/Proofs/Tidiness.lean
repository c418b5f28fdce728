import Stencil.Proofs.Retention

/-!
# Markup that is already tidy

Writing attributes anew changes nothing exactly if every start tag with attributes is written that
way already. The question is whether a change in one tag can make up for a change in another. It
cannot: a list of attributes closes its quotes and has no angle bracket outside them, both as it is
read and as it is written anew, so in either text it ends at the same bracket.
-/

namespace Stencil.Html

open Placeholder Placeholder.Format

/-! ### The inside of a start tag -/

/-- A text that closes its quotes and has no closing angle bracket outside them. -/
inductive IsInner : Text → Prop where
  | nil : IsInner []
  | char {c : Char} {rest : Text} (hc : c ∉ ['>', '\x22', '\x27']) (h : IsInner rest) :
      IsInner (c :: rest)
  | quote {quote : Char} {quoted rest : Text} (hquote : quote = '\x22' ∨ quote = '\x27')
      (hquoted : quote ∉ quoted) (h : IsInner rest) : IsInner (quote :: (quoted ++ quote :: rest))

namespace IsInner

theorem append {v w : Text} (hv : IsInner v) (hw : IsInner w) : IsInner (v ++ w) := by
  induction hv with
  | nil => exact hw
  | char hc _ ih => exact .char hc ih
  | quote hquote hquoted _ ih =>
      rw [List.cons_append, List.append_assoc, List.cons_append]
      exact .quote hquote hquoted ih

/-- Characters of a kind to which no quote and no closing angle bracket belongs. -/
theorem of_forall_mem {p : Char → Bool} (hp : ∀ c ∈ ['>', '\x22', '\x27'], p c = false) {w : Text}
    (h : ∀ c ∈ w, p c = true) : IsInner w := by
  induction w with
  | nil => exact .nil
  | cons c w ih =>
      obtain ⟨hc, hw⟩ := List.forall_mem_cons.1 h
      refine .char (fun hmem => ?_) (ih hw)
      rw [hp c hmem] at hc
      cases hc

/-- The inside of a start tag ends at the first angle bracket outside quotes. -/
theorem eq_of_append_eq {v w x y : Text} (hv : IsInner v) (hw : IsInner w)
    (h : v ++ '>' :: x = w ++ '>' :: y) : v = w := by
  induction hv generalizing w with
  | nil =>
      cases hw with
      | nil => rfl
      | char hc _ => exact absurd (List.cons.inj h).1.symm (by rintro rfl; simp at hc)
      | quote hquote _ _ =>
          obtain rfl := (List.cons.inj h).1
          simp at hquote
  | @char c v hc _ ih =>
      cases hw with
      | nil => exact absurd (List.cons.inj h).1 (by rintro rfl; simp at hc)
      | char _ hw =>
          obtain ⟨rfl, htail⟩ := List.cons.inj h
          rw [ih hw htail]
      | quote hquote _ _ =>
          obtain ⟨rfl, -⟩ := List.cons.inj h
          rcases hquote with rfl | rfl <;> simp at hc
  | @quote quote quoted v hquote hquoted _ ih =>
      cases hw with
      | nil =>
          obtain rfl := (List.cons.inj h).1
          simp at hquote
      | char hc _ =>
          obtain ⟨rfl, -⟩ := List.cons.inj h
          rcases hquote with rfl | rfl <;> simp at hc
      | @quote _ other w _ hother hw =>
          obtain ⟨rfl, htail⟩ := List.cons.inj h
          -- The quote ends at the same place in both.
          have hsame : quoted ++ quote :: (v ++ '>' :: x) = other ++ quote :: (w ++ '>' :: y) := by
            simpa using htail
          have hcut := Text.cutAfter?_append hquoted (v ++ '>' :: x)
          rw [hsame, Text.cutAfter?_append hother] at hcut
          obtain ⟨rfl, hrest⟩ := Prod.mk.inj (Option.some.inj hcut)
          rw [ih hw hrest.symm]

end IsInner

private theorem StartTag.isInner_of_cutEnd? {s list rest : Text} {closed : Bool}
    (h : cutEnd? s = some (list, closed, rest)) : IsInner list := by
  fun_induction cutEnd? s generalizing list with
  | case1 => cases h
  | case2 r =>
      obtain ⟨rfl, -⟩ := Prod.mk.inj (Option.some.inj h)
      exact .nil
  | case3 r =>
      obtain ⟨rfl, -⟩ := Prod.mk.inj (Option.some.inj h)
      exact .nil
  | case4 c r _ hbracket hquote quoted rest' hcut ih =>
      obtain ⟨p, hp, heq⟩ := Option.map_eq_some_iff.1 h
      obtain ⟨rfl, he⟩ := Prod.mk.inj heq
      have hinner : IsInner p.1 := ih (by rw [hp, ← he])
      have hquoted := IsInner.quote hquote (Text.not_mem_of_cutAfter? hcut) hinner
      simpa using hquoted
  | case5 => cases h
  | case6 c r _ hbracket hquote ih =>
      obtain ⟨p, hp, heq⟩ := Option.map_eq_some_iff.1 h
      obtain ⟨rfl, he⟩ := Prod.mk.inj heq
      exact .char (by simpa using ⟨hbracket, not_or.1 hquote⟩) (ih (by rw [hp, ← he]))

theorem Markup.isInner_of_mem_ofText {s : Text} {t : StartTag} (h : .tag t ∈ ofText s) :
    IsInner t.attributes := by
  obtain ⟨u, rest, hmatch⟩ := exists_match?_of_mem_ofText h
  obtain ⟨c, list, r, hlist, hblank, hcut⟩ := StartTag.exists_of_match? hmatch
  have hfirst : IsInner [c] := .of_forall_mem (by decide) (List.forall_mem_singleton.2 hblank)
  rw [hlist]
  exact hfirst.append (StartTag.isInner_of_cutEnd? hcut)

namespace Attribute

private theorem isInner_value {value : Text}
    (h : IsQuoted value ∨ ∀ c ∈ value, isBareChar c = true) : IsInner value := by
  rcases h with ⟨quote, inner, hquote, hinner, rfl⟩ | hbare
  · exact .quote hquote hinner .nil
  · exact .of_forall_mem (by decide) hbare

private theorem isInner_spaced (collapse : Bool) (s : Text) :
    IsInner (spaced collapse (readAll s)) := by
  have hname (c : Char) (r : Text) (hc : isNameChar c = true) :
      IsInner (c :: r.takeWhile isNameChar) :=
    .of_forall_mem (by decide) (List.forall_mem_cons.2 ⟨hc, fun _ => List.mem_takeWhile_imp⟩)
  fun_induction readAll s with
  | case1 => exact .nil
  | case2 c r hc value rest hvalue ih =>
      have htext : IsInner (text collapse ⟨c :: r.takeWhile isNameChar, some value⟩) := by
        rw [text_some]
        split_ifs
        · exact hname c r hc
        · exact (hname c r hc).append (.char (by decide) (isInner_value (of_value? hvalue).2))
      exact .char (by decide) (htext.append ih)
  | case3 c r hc hvalue ih => exact .char (by decide) ((hname c r hc).append ih)
  | case4 c r hc ih => exact ih

end Attribute

/-! ### Start tags in the form in which they are written -/

/-- A start tag is written with a space in front of each attribute, and nothing else between. -/
def StartTag.IsTidy (collapse : Bool) (t : StartTag) : Prop :=
  t.withAttributes (t.attributeText collapse) = t.text

instance (collapse : Bool) (t : StartTag) : Decidable (t.IsTidy collapse) :=
  inferInstanceAs (Decidable (_ = _))

/-- A start tag that is written anew begins a text only if it is tidy. -/
theorem StartTag.isTidy_of_append_eq {collapse : Bool} {t : StartTag} {x y : Text}
    (hinner : IsInner t.attributes) (hattributes : t.hasAttributes = true)
    (h : t.withAttributes (t.attributeText collapse) ++ x = t.text ++ y) : t.IsTidy collapse := by
  have hwithin := t.withAttributes_attributeText collapse hattributes
  have hspaced := Attribute.isInner_spaced collapse t.attributes
  have hlist : Attribute.spaced collapse (Attribute.readAll t.attributes) = t.attributes := by
    rw [hwithin, text] at h
    simp only [List.append_assoc, List.cons_append, List.append_cancel_left_eq,
      List.cons.injEq, true_and] at h
    cases hclosed : t.closed with
    | false =>
        rw [hclosed] at h
        exact hspaced.eq_of_append_eq hinner h
    | true =>
        have hslash : IsInner ['/'] := .char (by decide) .nil
        rw [hclosed] at h
        have hall :
            Attribute.spaced collapse (Attribute.readAll t.attributes) ++ ['/'] ++ '>' :: x =
              t.attributes ++ ['/'] ++ '>' :: y := by simpa [ending] using h
        exact List.append_cancel_right
          ((hspaced.append hslash).eq_of_append_eq (hinner.append hslash) hall)
  rw [IsTidy, hwithin, hlist, text, List.append_assoc]

namespace Markup

theorem tidy_eq_flatMap_text_iff {collapse : Bool} {ms : List Markup}
    (hms : ∀ t, .tag t ∈ ms → IsInner t.attributes) :
    tidy collapse ms = ms.flatMap text ↔ ∀ t ∈ attributed ms, t.IsTidy collapse := by
  induction ms with
  | nil => exact iff_of_true rfl (by simp [attributed])
  | cons m ms ih =>
      have ih := ih fun t ht => hms t (List.mem_cons_of_mem _ ht)
      rw [List.flatMap_cons]
      cases m with
      | char c =>
          rw [tidy, text, List.singleton_append, List.cons_inj_right, ih]
          rfl
      | tag t =>
          rw [tidy, text, attributed_tag]
          split_ifs with hattributes
          · have hcancel (ht : t.IsTidy collapse) : t.withAttributes (t.attributeText collapse)
                ++ tidy collapse ms = t.text ++ ms.flatMap text ↔
                  tidy collapse ms = ms.flatMap text := by
              rw [show t.withAttributes _ = t.text from ht, List.append_cancel_left_eq]
            rw [List.forall_mem_cons, ← ih]
            constructor
            · intro h
              have ht := StartTag.isTidy_of_append_eq (hms t List.mem_cons_self) hattributes h
              exact ⟨ht, (hcancel ht).1 h⟩
            · rintro ⟨ht, hrest⟩
              exact (hcancel ht).2 hrest
          · rw [List.append_cancel_left_eq, ih]

end Markup

end Stencil.Html
