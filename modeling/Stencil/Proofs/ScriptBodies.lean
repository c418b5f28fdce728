import Stencil.Proofs.Tidiness

/-!
# What becomes of script and style bodies

The body of a script or style element is text and not markup, but start tags are looked for
everywhere, and two comparisons around a string can look like one. The result of a minification is
therefore described window by window: the start tags and characters that overlap a body are the ones
that decide what becomes of it, and they are written anew one by one. A window comes through as it
is exactly if its start tags with attributes are tidy. A body without start tags does, and is then
only rid of the comment around it.
-/

namespace Stencil.Html

open Placeholder Placeholder.Format

/-! ### Windows -/

namespace Markup

/-- A stretch of markup that holds a body, and what stands before and after it. The first and the
last start tag of the stretch can reach over an end of the body. -/
structure Window where
  before : List Markup
  within : List Markup
  after : List Markup
  /-- What stands in the window to the left of the body. -/
  left : Text
  /-- What stands in the window to the right of the body. -/
  right : Text

/-- A window is the part of markup that overlaps a body, which has the given text on either side. -/
structure Window.Frames (w : Window) (ms : List Markup) (front body back : Text) : Prop where
  markup_eq : ms = w.before ++ w.within ++ w.after
  front_eq : front = w.before.flatMap text ++ w.left
  within_eq : w.within.flatMap text = w.left ++ body ++ w.right
  back_eq : back = w.right ++ w.after.flatMap text
  /-- Everything in the window begins before the end of the body and ends behind its beginning. -/
  overlaps : ∀ a m b, w.within = a ++ m :: b →
    (a.flatMap text).length < (w.left ++ body).length ∧
      w.left.length < ((a ++ [m]).flatMap text).length

private theorem exists_split_front {ms : List Markup} {x y : Text} (h : ms.flatMap text = x ++ y) :
    ∃ before rest left, ms = before ++ rest ∧ x = before.flatMap text ++ left ∧
      rest.flatMap text = left ++ y ∧ ∀ m ∈ rest.head?, left.length < m.text.length := by
  induction ms generalizing x with
  | nil =>
      obtain ⟨rfl, rfl⟩ := List.append_eq_nil_iff.1 h.symm
      exact ⟨[], [], [], rfl, rfl, rfl, by simp⟩
  | cons m ms ih =>
      rw [List.flatMap_cons] at h
      by_cases hlength : m.text.length ≤ x.length
      · obtain ⟨z, rfl⟩ := List.prefix_of_prefix_length_le ⟨ms.flatMap text, h⟩
          (List.prefix_append x y) hlength
        rw [List.append_assoc, List.append_cancel_left_eq] at h
        obtain ⟨before, rest, left, rfl, rfl, hrest, hhead⟩ := ih h
        exact ⟨m :: before, rest, left, rfl, by simp, hrest, hhead⟩
      · refine ⟨[], m :: ms, x, rfl, rfl, h, fun n hn => ?_⟩
        obtain rfl := Option.some.inj hn
        exact not_le.1 hlength

/-- The markup that begins within an end, and the rest, whose last stretch begins before it. -/
theorem exists_split_back {ms : List Markup} {x y : Text} (h : ms.flatMap text = x ++ y) :
    ∃ rest after right, ms = rest ++ after ∧ y = right ++ after.flatMap text ∧
      rest.flatMap text = x ++ right ∧ ∀ m ∈ rest.getLast?, right.length < m.text.length := by
  induction ms using List.reverseRecOn generalizing y with
  | nil =>
      obtain ⟨rfl, rfl⟩ := List.append_eq_nil_iff.1 h.symm
      exact ⟨[], [], [], rfl, rfl, rfl, by simp⟩
  | append_singleton ms m ih =>
      rw [List.flatMap_append, List.flatMap_singleton] at h
      by_cases hlength : m.text.length ≤ y.length
      · obtain ⟨z, rfl⟩ := List.suffix_of_suffix_length_le ⟨ms.flatMap text, h⟩
          (List.suffix_append x y) hlength
        rw [← List.append_assoc, List.append_cancel_right_eq] at h
        obtain ⟨rest, after, right, rfl, rfl, hrest, hlast⟩ := ih h
        exact ⟨rest, after ++ [m], right, by simp, by simp, hrest, hlast⟩
      · refine ⟨ms ++ [m], [], y, by simp, by simp, ?_, fun n hn => ?_⟩
        · rw [List.flatMap_append, List.flatMap_singleton, h]
        · rw [List.getLast?_concat] at hn
          obtain rfl := Option.some.inj hn
          exact not_le.1 hlength

private theorem exists_frames {ms : List Markup} {front body back : Text}
    (h : ms.flatMap text = front ++ body ++ back) : ∃ w : Window, w.Frames ms front body back := by
  rw [List.append_assoc] at h
  obtain ⟨before, rest, left, rfl, rfl, hrest, hhead⟩ := exists_split_front h
  rw [← List.append_assoc] at hrest
  obtain ⟨within, after, right, rfl, rfl, hwithin, hlast⟩ := exists_split_back hrest
  refine ⟨⟨before, within, after, left, right⟩, by simp, rfl, hwithin, rfl, ?_⟩
  rintro a m b rfl
  -- The first stretch goes beyond the text to the left, and the last begins before the text to the
  -- right.
  constructor
  · obtain ⟨n, hn⟩ : ∃ n, (m :: b).getLast? = some n := Option.isSome_iff_exists.1 (by simp)
    have hn' := hlast n (by rw [List.getLast?_append, hn]; rfl)
    obtain ⟨c, hc⟩ := List.getLast?_eq_some_iff.1 hn
    have hlength := congrArg List.length hwithin
    rw [hc] at hlength
    simp only [List.flatMap_append, List.flatMap_singleton, List.length_append] at hlength ⊢
    omega
  · match a with
    | [] =>
        have hm := hhead m rfl
        simpa using hm
    | n :: a =>
        have hn := hhead n rfl
        simp only [List.cons_append, List.flatMap_cons, List.length_append]
        omega

/-- A window that is written anew is as it was exactly if its start tags with attributes are
tidy. -/
theorem Window.Frames.tidy_eq_iff {w : Window} {collapse : Bool} {s front body back : Text}
    (h : w.Frames (ofText s) front body back) :
    tidy collapse w.within = w.left ++ body ++ w.right ↔
      ∀ t ∈ attributed w.within, t.IsTidy collapse := by
  rw [← h.within_eq]
  exact tidy_eq_flatMap_text_iff fun t ht =>
    isInner_of_mem_ofText (s := s) (by rw [h.markup_eq]; simp [ht])

end Markup

/-! ### Preparing -/

namespace RawText

def preparedBody (o : Object) (body : Text) : Text :=
  if isOn o .removeCommentsFromCdata then unwrapBody body else body

def Stretch.preparedText (o : Object) : Stretch → Text
  | char c => [c]
  | element e => e.opening ++ preparedBody o e.body ++ e.closing

private theorem prepare_eq (text : Text) (o : Object) :
    Html.prepare text o = (stretches text).flatMap (Stretch.preparedText o) := by
  rw [Html.prepare]
  split_ifs with hon
  · rw [unwrap, List.flatMap_map]
    refine List.flatMap_congr fun m _ => ?_
    cases m with
    | char c => rfl
    | element e =>
        rw [Stretch.preparedText, preparedBody, if_pos hon]
        rfl
  · conv_lhs => rw [← flatMap_text_stretches text]
    refine List.flatMap_congr fun m _ => ?_
    cases m with
    | char c => rfl
    | element e =>
        rw [Stretch.preparedText, preparedBody, if_neg hon]
        rfl

private theorem prepare_of_stretches {text : Text} {o : Object} {before after : List Stretch}
    {e : RawText} (h : stretches text = before ++ .element e :: after) :
    Html.prepare text o = (before.flatMap (Stretch.preparedText o) ++ e.opening)
      ++ preparedBody o e.body ++ (e.closing ++ after.flatMap (Stretch.preparedText o)) := by
  rw [prepare_eq, h, List.flatMap_append, List.flatMap_cons, Stretch.preparedText]
  simp

end RawText

theorem not_holds_prepare {text : Text} (hplain : ∀ ds, ¬attributeFormat.Holds text ds) (o : Object)
    (ds : Text) : ¬attributeFormat.Holds (prepare text o) ds := by
  rw [prepare]
  split_ifs
  · obtain ⟨middle, hfirst, hsecond⟩ := RawText.thinned_unwrap endures_tags text
    exact fun hds => hplain ds
      (holds_of_thinned isName_attributes hfirst (holds_of_thinned isName_attributes hsecond hds))
  · exact hplain ds

/-! ### Bodies in minified markup -/

/-- If attributes are hidden from an outside function that gives every text back, markup without a
placeholder for attributes comes back, unless its attributes are so many that their numbers cannot
be read. The body of a script or style element is then rid of the comment around it, and all that
overlaps it comes back as it is if and only if the start tags there are tidy, in so far as they have
attributes. -/
theorem bodies_minified {leaf : External}
    (hleaf : ∀ text object, leaf text object = .ok (.string text)) {text : Text} {o : Object}
    (hcheck : check o = .ok true) (hplain : ∀ ds, ¬attributeFormat.Holds text ds) :
    ((∃ out, (minify leaf text o).result = .ok (.string out)) ↔
      (Markup.attributed (Markup.ofText (prepare text o))).length ≤ 10 ^ maxDigits) ∧
    ∀ out, (minify leaf text o).result = .ok (.string out) →
      ∀ before e after, RawText.stretches text = before ++ .element e :: after →
        ∃ w : Markup.Window,
          w.Frames (Markup.ofText (prepare text o))
            (before.flatMap (RawText.Stretch.preparedText o) ++ e.opening)
            (RawText.preparedBody o e.body)
            (e.closing ++ after.flatMap (RawText.Stretch.preparedText o)) ∧
          out = Markup.tidy (isOn o .collapseBooleanAttributes) w.before
            ++ Markup.tidy (isOn o .collapseBooleanAttributes) w.within
            ++ Markup.tidy (isOn o .collapseBooleanAttributes) w.after ∧
          (Markup.tidy (isOn o .collapseBooleanAttributes) w.within
              = w.left ++ RawText.preparedBody o e.body ++ w.right ↔
            ∀ t ∈ Markup.attributed w.within, t.IsTidy (isOn o .collapseBooleanAttributes)) := by
  have hresult := result_minify_eq_ok_iff hleaf hcheck (not_holds_prepare hplain o)
  constructor
  · constructor
    · rintro ⟨out, hout⟩
      exact ((hresult out).1 hout).1
    · exact fun hcount => ⟨_, (hresult _).2 ⟨hcount, rfl⟩⟩
  intro out hout before e after hstretches
  obtain ⟨-, rfl⟩ := (hresult out).1 hout
  have htext : (Markup.ofText (prepare text o)).flatMap Markup.text = _ :=
    (Markup.flatMap_text_ofText _).trans (RawText.prepare_of_stretches hstretches)
  obtain ⟨w, hw⟩ := Markup.exists_frames htext
  refine ⟨w, hw, ?_, hw.tidy_eq_iff⟩
  rw [hw.markup_eq, Markup.tidy_append, Markup.tidy_append]

def keepLeaf : External := fun text _ => .ok (.string text)

theorem keepLeaf_apply (text : Text) (o : Object) : keepLeaf text o = .ok (.string text) := rfl

/-- A script with two comparisons. What stands between the brackets is read as a start tag. -/
def comparisons (between : String) : Text :=
  "<script>a<b ".toList ++ between.toList ++ " c>d</script>".toList

theorem not_holds_comparisons (between : String)
    (h : ¬attributeFormat.opening <:+: comparisons between) (ds : Text) :
    ¬attributeFormat.Holds (comparisons between) ds :=
  fun hds => h hds.opening_isInfix

/-- Two ampersands are read as the name of an attribute, so they are written as they are. -/
theorem bodies_minified_ampersands :
    check [] = .ok true ∧ (∀ ds, ¬attributeFormat.Holds (comparisons "&&") ds) ∧
      ∃ (out : Text) (w : Markup.Window), (minify keepLeaf (comparisons "&&") []).result
          = .ok (.string out) ∧
        w.Frames (Markup.ofText (prepare (comparisons "&&") [])) "<script>".toList
          "a<b && c>d".toList "</script>".toList ∧
        out = Markup.tidy true w.before ++ Markup.tidy true w.within ++ Markup.tidy true w.after ∧
        Markup.tidy true w.within = w.left ++ "a<b && c>d".toList ++ w.right := by
  have hplain := not_holds_comparisons "&&" (by decide)
  have hstretches : RawText.stretches (comparisons "&&") =
      [] ++ .element ⟨"<script>".toList, "a<b && c>d".toList, "</script>".toList⟩ :: [] := by
    decide +kernel
  have hone : (Markup.attributed (Markup.ofText (prepare (comparisons "&&") []))).length = 1 := by
    decide +kernel
  have htidy : ∀ t ∈ Markup.attributed (Markup.ofText (prepare (comparisons "&&") [])),
      t.IsTidy true := by decide +kernel
  obtain ⟨hok, hbodies⟩ := bodies_minified keepLeaf_apply (o := []) rfl hplain
  obtain ⟨out, hout⟩ := hok.2 (by rw [hone]; exact Nat.one_le_pow _ _ (by decide))
  obtain ⟨w, hframes, hparts, hiff⟩ := hbodies out hout _ _ _ hstretches
  refine ⟨rfl, hplain, out, w, hout, hframes, hparts, hiff.2 fun t ht => htidy t ?_⟩
  rw [hframes.markup_eq, Markup.attributed, List.filterMap_append, List.filterMap_append]
  exact List.mem_append_left _ (List.mem_append_right _ ht)

/-- Two equals signs belong to no attribute, so a comparison is lost from the script. -/
theorem bodies_minified_equals :
    check [] = .ok true ∧ ¬attributeFormat.opening <:+: comparisons "==" ∧
      RawText.stretches (comparisons "==") =
        [.element ⟨"<script>".toList, "a<b == c>d".toList, "</script>".toList⟩] ∧
      RawText.unwrapBody "a<b == c>d".toList = "a<b == c>d".toList ∧
      (minify keepLeaf (comparisons "==") []).result
        = .ok (.string "<script>a<b c>d</script>".toList) ∧
      ¬"a<b == c>d".toList <:+: "<script>a<b c>d</script>".toList := by
  have hplain : ¬attributeFormat.opening <:+: comparisons "==" := by decide
  have hone : (Markup.attributed (Markup.ofText (prepare (comparisons "==") []))).length = 1 := by
    decide +kernel
  have hresult := result_minify_eq_ok_iff keepLeaf_apply (o := []) rfl
    (not_holds_prepare (not_holds_comparisons "==" hplain) [])
  refine ⟨rfl, hplain, by decide +kernel, by decide, (hresult _).2 ⟨?_, ?_⟩, by decide⟩
  · rw [hone]
    exact Nat.one_le_pow _ _ (by decide)
  · decide +kernel

end Stencil.Html
