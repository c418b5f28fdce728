import Stencil.Proofs.Attributes

/-!
# What is lost of attributes

Attributes that were hidden come back with single spaces between them, and a character that belongs
to no attribute does not come back. Apart from blanks, what is lost of markup is exactly what
reading the attribute lists of its start tags passes over. So the markup comes back, up to blanks,
if and only if every such list consists of attributes and blanks. An equals sign in a value without
quotes is not part of the value, and is lost.
-/

namespace Stencil

namespace Text

def withoutBlanks (s : Text) : Text := s.filter fun c => !isBlank c

@[simp] theorem withoutBlanks_nil : withoutBlanks [] = [] := rfl

@[simp] theorem withoutBlanks_append (s t : Text) :
    withoutBlanks (s ++ t) = withoutBlanks s ++ withoutBlanks t :=
  List.filter_append ..

theorem withoutBlanks_cons (c : Char) (s : Text) :
    withoutBlanks (c :: s) = withoutBlanks [c] ++ withoutBlanks s :=
  withoutBlanks_append [c] s

theorem withoutBlanks_eq_nil_iff {s : Text} :
    withoutBlanks s = [] ↔ ∀ c ∈ s, isBlank c = true := by
  simp [withoutBlanks]

/-- A text is what is left of it, with what it loses in between, both in order. -/
inductive Loses : Text → Text → Text → Prop where
  | nil : Loses [] [] []
  | keep (c : Char) {whole rest lost : Text} (h : Loses whole rest lost) :
      Loses (c :: whole) (c :: rest) lost
  | lose (c : Char) {whole rest lost : Text} (h : Loses whole rest lost) :
      Loses (c :: whole) rest (c :: lost)

namespace Loses

variable {whole rest lost : Text}

theorem keepAll (h : Loses whole rest lost) (s : Text) : Loses (s ++ whole) (s ++ rest) lost := by
  induction s with
  | nil => exact h
  | cons c s ih => exact ih.keep c

theorem loseAll (h : Loses whole rest lost) (s : Text) : Loses (s ++ whole) rest (s ++ lost) := by
  induction s with
  | nil => exact h
  | cons c s ih => exact ih.lose c

theorem append (h : Loses whole rest lost) {whole' rest' lost' : Text}
    (h' : Loses whole' rest' lost') : Loses (whole ++ whole') (rest ++ rest') (lost ++ lost') := by
  induction h with
  | nil => exact h'
  | keep c _ ih => exact ih.keep c
  | lose c _ ih => exact ih.lose c

theorem length_eq (h : Loses whole rest lost) : whole.length = rest.length + lost.length := by
  induction h with
  | nil => rfl
  | keep c _ ih => simp only [List.length_cons]; omega
  | lose c _ ih => simp only [List.length_cons]; omega

theorem sublist (h : Loses whole rest lost) : rest.Sublist whole := by
  induction h with
  | nil => exact .slnil
  | keep c _ ih => exact ih.cons_cons c
  | lose c _ ih => exact ih.cons c

theorem eq_iff (h : Loses whole rest lost) : rest = whole ↔ lost = [] := by
  have hlength := h.length_eq
  constructor
  · rintro rfl
    exact List.length_eq_zero_iff.1 (by omega)
  · rintro rfl
    exact h.sublist.eq_of_length (by simpa using hlength.symm)

end Loses

end Text

open Placeholder Placeholder.Format
open Text (withoutBlanks withoutBlanks_append withoutBlanks_cons
  withoutBlanks_eq_nil_iff Loses)

namespace Html

namespace Attribute

/-- The characters of a list of attributes that belong to no attribute. -/
def passedOver : Text → Text
  | [] => []
  | c :: r =>
    if isNameChar c then
      match _h : value? (r.dropWhile isNameChar) with
      | some (_, rest) => passedOver rest
      | none => passedOver (r.dropWhile isNameChar)
    else c :: passedOver r
termination_by s => s.length
decreasing_by
  · have := length_le_of_value? _h
    have := (List.dropWhile_sublist isNameChar (l := r)).length_le
    simp
    omega
  · have := (List.dropWhile_sublist isNameChar (l := r)).length_le
    simp
    omega
  · simp

private theorem withoutBlanks_name (c : Char) (r : Text) :
    withoutBlanks (c :: r) =
      withoutBlanks (c :: r.takeWhile isNameChar) ++ withoutBlanks (r.dropWhile isNameChar) := by
  rw [← withoutBlanks_append, List.cons_append, List.takeWhile_append_dropWhile]

/-- Attributes come back, apart from blanks, without what reading passes over. -/
theorem loses_readAll (s : Text) :
    Loses (withoutBlanks s) (withoutBlanks (spaced false (readAll s)))
      (withoutBlanks (passedOver s)) := by
  have hspace (t : Text) : withoutBlanks (' ' :: t) = withoutBlanks t := rfl
  fun_induction passedOver s with
  | case1 =>
      rw [readAll_nil]
      exact .nil
  | case2 c r hc value rest hvalue ih =>
      -- Between a name and its value only the equals sign is no blank, and it is written again.
      obtain ⟨⟨before, after, hblank, heq⟩, -⟩ := of_value? hvalue
      have hbefore := withoutBlanks_eq_nil_iff.2 fun c hc => hblank c (List.mem_append_left _ hc)
      have hafter := withoutBlanks_eq_nil_iff.2 fun c hc => hblank c (List.mem_append_right _ hc)
      have hwhole : withoutBlanks (c :: r) = withoutBlanks (c :: r.takeWhile isNameChar)
          ++ (withoutBlanks ('=' :: value) ++ withoutBlanks rest) := by
        rw [withoutBlanks_name c, heq, withoutBlanks_append, hbefore, withoutBlanks_cons '=',
          withoutBlanks_append, hafter, withoutBlanks_append, withoutBlanks_cons '=' value]
        simp
      have hrest : withoutBlanks (spaced false (readAll (c :: r))) =
          withoutBlanks (c :: r.takeWhile isNameChar)
            ++ (withoutBlanks ('=' :: value) ++ withoutBlanks (spaced false (readAll rest))) := by
        rw [readAll_of_value hc hvalue, spaced_cons, hspace, withoutBlanks_append, text_some,
          Bool.false_and, Bool.false_and, if_neg Bool.false_ne_true, withoutBlanks_append,
          List.append_assoc]
      rw [hwhole, hrest]
      exact (ih.keepAll _).keepAll _
  | case3 c r hc hvalue ih =>
      rw [readAll_of_no_value hc hvalue, spaced_cons, hspace, withoutBlanks_append,
        withoutBlanks_name c]
      exact ih.keepAll _
  | case4 c r hc ih =>
      rw [readAll_cons (by simpa using hc), withoutBlanks_cons c r,
        withoutBlanks_cons c (passedOver r)]
      exact ih.loseAll _

end Attribute

namespace Markup

/-- What belongs to no attribute in the start tags with attributes. -/
def passedOver (ms : List Markup) : Text :=
  (attributed ms).flatMap fun t => Attribute.passedOver t.attributes

theorem loses_tidy (ms : List Markup) :
    Loses (withoutBlanks (ms.flatMap text)) (withoutBlanks (tidy false ms))
      (withoutBlanks (passedOver ms)) := by
  induction ms with
  | nil => exact .nil
  | cons m ms ih =>
      rw [List.flatMap_cons, withoutBlanks_append]
      match m with
      | .char c =>
          rw [tidy, withoutBlanks_cons]
          exact ih.keepAll _
      | .tag t =>
          rw [tidy, passedOver, attributed_tag]
          split_ifs with hattributes
          · have htidy := t.withAttributes_attributeText false hattributes
            have htext : (Markup.tag t).text =
                ('<' :: t.name) ++ (t.attributes ++ StartTag.ending t.closed) := by
              simp [text, StartTag.text]
            rw [htidy, htext, List.flatMap_cons]
            simp only [withoutBlanks_append, List.append_assoc]
            exact ((Attribute.loses_readAll t.attributes).append (ih.keepAll _)).keepAll _
          · rw [withoutBlanks_append]
            exact ih.keepAll _

end Markup

/-- Markup without a placeholder for attributes comes back after its attributes were hidden, unless
they are so many that their numbers cannot be read, and then nothing but blanks is changed, apart
from what belongs to no attribute, which is lost. It comes back up to blanks exactly if the lists of
attributes have only blanks between the attributes. -/
theorem restore_protectAttributes_withoutBlanks {s : Text}
    (hplain : ¬"templatize-attrs-".toList <:+: s) :
    ((∃ restored, attributeFormat.restore (protectAttributes attributeFormat false s).kept
        (protectAttributes attributeFormat false s).text = .ok restored) ↔
      (protectAttributes attributeFormat false s).kept.length ≤ 10 ^ maxDigits) ∧
    ∀ restored, attributeFormat.restore (protectAttributes attributeFormat false s).kept
        (protectAttributes attributeFormat false s).text = .ok restored →
      Loses (withoutBlanks s) (withoutBlanks restored)
        (withoutBlanks (Markup.passedOver (Markup.ofText s))) ∧
      (withoutBlanks restored = withoutBlanks s ↔
        ∀ t ∈ Markup.attributed (Markup.ofText s), ∀ c ∈ Attribute.passedOver t.attributes,
          Text.isBlank c = true) := by
  have hnone : ∀ ds, ¬attributeFormat.Holds s ds := fun ds hds => hplain hds.opening_isInfix
  have hrestore := restore_protectAttributes_eq_ok_iff false hnone
  refine ⟨?_, fun restored hrestored => ?_⟩
  · rw [protectAttributes, List.length_map]
    constructor
    · rintro ⟨restored, hrestored⟩
      exact ((hrestore restored).1 hrestored).1
    · exact fun hcount => ⟨_, (hrestore _).2 ⟨hcount, rfl⟩⟩
  · obtain ⟨-, rfl⟩ := (hrestore restored).1 hrestored
    have hloses := Markup.loses_tidy (Markup.ofText s)
    rw [Markup.flatMap_text_ofText] at hloses
    refine ⟨hloses, ?_⟩
    rw [hloses.eq_iff, withoutBlanks_eq_nil_iff, Markup.passedOver, List.forall_mem_flatMap]

/-- The lists consist of attributes and blanks, and come back with the blanks changed. -/
theorem restore_protectAttributes_withoutBlanks_padded :
    ¬"templatize-attrs-".toList <:+: "<p  id = '1'\n/><br>".toList ∧
      ∃ restored, attributeFormat.restore
          (protectAttributes attributeFormat false "<p  id = '1'\n/><br>".toList).kept
          (protectAttributes attributeFormat false "<p  id = '1'\n/><br>".toList).text
            = .ok restored ∧
        withoutBlanks restored = withoutBlanks "<p  id = '1'\n/><br>".toList := by
  have hplain : ¬"templatize-attrs-".toList <:+: "<p  id = '1'\n/><br>".toList := by decide
  have hkept : (protectAttributes attributeFormat false "<p  id = '1'\n/><br>".toList).kept
      = ["id='1'".toList] := by decide +kernel
  have hblank : ∀ t ∈ Markup.attributed (Markup.ofText "<p  id = '1'\n/><br>".toList),
      ∀ c ∈ Attribute.passedOver t.attributes, Text.isBlank c = true := by decide +kernel
  obtain ⟨hok, hcontent⟩ := restore_protectAttributes_withoutBlanks hplain
  obtain ⟨restored, hrestored⟩ := hok.2 (by rw [hkept]; exact Nat.one_le_pow _ _ (by decide))
  exact ⟨hplain, restored, hrestored, (hcontent restored hrestored).2.2 hblank⟩

/-- The equals sign of a query is no part of a value without quotes, so it is lost. -/
theorem restore_protectAttributes_query :
    ¬"templatize-attrs-".toList <:+: "<a href=/s?q=1>".toList ∧
      attributeFormat.restore
          (protectAttributes attributeFormat false "<a href=/s?q=1>".toList).kept
          (protectAttributes attributeFormat false "<a href=/s?q=1>".toList).text
        = .ok "<a href=/s?q 1>".toList ∧
      withoutBlanks "<a href=/s?q 1>".toList ≠ withoutBlanks "<a href=/s?q=1>".toList :=
  ⟨by decide, eq_ok_of_toOption (by decide +kernel), by decide⟩

end Html

end Stencil
