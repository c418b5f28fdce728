import Stencil.Proofs.Markup

/-!
# Taking the comments off bodies

Old pages hide the body of a script or style element in a comment. Unwrapping takes at most two
pieces out of a body: the mark that begins a comment, if only blanks stand before it, and the mark
that ends one, if only blanks stand behind it and it shares no character with the first. A body is
therefore five parts, two of which can be marks, and what is left of it does not depend on how it is
taken apart. With the reading of markup as leftmost elements this says what unwrapping does to any
text: the marks go, and every other character stays where it is.
-/

namespace Stencil.Html.RawText

/-! ### The marks of a comment -/

/-- Only blanks stand before a mark that begins a comment. -/
def OpensComment (s : Text) : Prop :=
  ∃ blanks rest, (∀ c ∈ blanks, Text.isBlank c = true) ∧ s = blanks ++ (commentOpening ++ rest)

/-- Only blanks stand behind a mark that ends a comment. -/
def ClosesComment (s : Text) : Prop :=
  ∃ front blanks, (∀ c ∈ blanks, Text.isBlank c = true) ∧ s = front ++ (commentClosing ++ blanks)

private theorem dropCommentOpening_append {blanks : Text}
    (hblanks : ∀ c ∈ blanks, Text.isBlank c = true) (rest : Text) :
    dropCommentOpening (blanks ++ (commentOpening ++ rest)) = blanks ++ rest := by
  have hmark : ∀ c ∈ (commentOpening ++ rest).head?, Text.isBlank c = false := by
    intro c hc
    obtain rfl := Option.some.inj hc
    rfl
  obtain ⟨htake, hdrop⟩ := Text.takeWhile_dropWhile_append hblanks hmark
  rw [dropCommentOpening, hdrop, Text.dropFront?_append, htake]

private theorem dropCommentOpening_eq_self {body : Text} (h : ¬OpensComment body) :
    dropCommentOpening body = body := by
  rcases dropCommentOpening_cases body with heq | ⟨blanks, rest, hblanks, hbody, -⟩
  · exact heq
  · exact absurd ⟨blanks, rest, hblanks, hbody⟩ h

private theorem dropCommentClosing_append {blanks : Text}
    (hblanks : ∀ c ∈ blanks, Text.isBlank c = true) (front : Text) :
    dropCommentClosing (front ++ (commentClosing ++ blanks)) = front ++ blanks := by
  have hreverse : (front ++ (commentClosing ++ blanks)).reverse =
      blanks.reverse ++ (commentClosing.reverse ++ front.reverse) := by
    simp
  have hblank : ∀ c ∈ blanks.reverse, Text.isBlank c = true := by
    intro c hc
    exact hblanks c (List.mem_reverse.1 hc)
  have hmark : ∀ c ∈ (commentClosing.reverse ++ front.reverse).head?, Text.isBlank c = false := by
    intro c hc
    obtain rfl := Option.some.inj hc
    rfl
  obtain ⟨htake, hdrop⟩ := Text.takeWhile_dropWhile_append hblank hmark
  rw [dropCommentClosing, hreverse, hdrop, Text.dropFront?_append, htake, List.reverse_reverse]
  exact congrArg (· ++ blanks) (List.reverse_reverse front)

private theorem dropCommentClosing_eq_self {body : Text} (h : ¬ClosesComment body) :
    dropCommentClosing body = body := by
  rcases dropCommentClosing_cases body with heq | ⟨front, blanks, hblanks, hbody, -⟩
  · exact heq
  · exact absurd ⟨front, blanks, hblanks, hbody⟩ h

/-- Blanks in front of a text are no part of a mark at its end. -/
theorem ClosesComment.of_append {blanks s : Text} (hblanks : ∀ c ∈ blanks, Text.isBlank c = true)
    (h : ClosesComment (blanks ++ s)) : ClosesComment s := by
  obtain ⟨front, after, hafter, heq⟩ := h
  rcases List.append_eq_append_iff.1 heq with ⟨inside, rfl, rfl⟩ | ⟨beyond, rfl, hmark⟩
  · exact ⟨inside, after, hafter, rfl⟩
  · match beyond with
    | [] => exact ⟨[], after, hafter, hmark.symm⟩
    | c :: beyond =>
        obtain ⟨rfl, -⟩ := List.cons.inj hmark
        have hdash := hblanks '-' (List.mem_append_right front List.mem_cons_self)
        cases hdash

/-! ### Bodies -/

/-- A body in five parts, of which the second and the fourth are marks or empty. -/
structure Wrapping where
  before : Text
  opening : Text
  inside : Text
  closing : Text
  after : Text

namespace Wrapping

def text (w : Wrapping) : Text :=
  w.before ++ (w.opening ++ (w.inside ++ (w.closing ++ w.after)))

/-- What is left without the marks. -/
def bare (w : Wrapping) : Text := w.before ++ (w.inside ++ w.after)

/-- The parts are those of a body. A mark is missing only if there is none in its place, and the
second one is looked for behind the first. -/
structure IsOf (w : Wrapping) (body : Text) : Prop where
  text_eq : w.text = body
  before_blank : ∀ c ∈ w.before, Text.isBlank c = true
  after_blank : ∀ c ∈ w.after, Text.isBlank c = true
  opening_eq : w.opening = commentOpening ∨ w.opening = [] ∧ ¬OpensComment body
  closing_eq : w.closing = commentClosing ∨ w.closing = [] ∧ ¬ClosesComment (w.inside ++ w.after)

theorem IsOf.unwrapBody_eq {w : Wrapping} {body : Text} (h : w.IsOf body) :
    unwrapBody body = w.bare := by
  have hopening : dropCommentOpening body = w.before ++ (w.inside ++ (w.closing ++ w.after)) := by
    rcases h.opening_eq with hmark | ⟨hnil, hnone⟩
    · rw [← h.text_eq, text, hmark, dropCommentOpening_append h.before_blank]
    · rw [dropCommentOpening_eq_self hnone, ← h.text_eq, text, hnil, List.nil_append]
  rw [unwrapBody, hopening, bare]
  rcases h.closing_eq with hmark | ⟨hnil, hnone⟩
  · rw [hmark, ← List.append_assoc, dropCommentClosing_append h.after_blank, List.append_assoc]
  · rw [hnil, List.nil_append]
    exact dropCommentClosing_eq_self fun hcloses => hnone (hcloses.of_append h.before_blank)

private theorem exists_closing (s : Text) :
    ∃ inside closing after, s = inside ++ (closing ++ after) ∧
      (∀ c ∈ after, Text.isBlank c = true) ∧
      (closing = commentClosing ∨ closing = [] ∧ ¬ClosesComment (inside ++ after)) := by
  by_cases h : ClosesComment s
  · obtain ⟨inside, after, hafter, rfl⟩ := h
    exact ⟨inside, commentClosing, after, rfl, hafter, .inl rfl⟩
  · exact ⟨s, [], [], by simp, by simp, .inr ⟨rfl, by rwa [List.append_nil]⟩⟩

theorem exists_isOf (body : Text) : ∃ w : Wrapping, w.IsOf body := by
  by_cases h : OpensComment body
  · obtain ⟨before, rest, hbefore, rfl⟩ := h
    obtain ⟨inside, closing, after, rfl, hafter, hclosing⟩ := exists_closing rest
    exact ⟨⟨before, commentOpening, inside, closing, after⟩, rfl, hbefore, hafter, .inl rfl, hclosing⟩
  · obtain ⟨inside, closing, after, rfl, hafter, hclosing⟩ := exists_closing body
    exact ⟨⟨[], [], inside, closing, after⟩, rfl, by simp, hafter, .inr ⟨rfl, h⟩, hclosing⟩

end Wrapping

theorem unwrapBody_eq_iff {body out : Text} :
    unwrapBody body = out ↔ ∃ w : Wrapping, w.IsOf body ∧ out = w.bare := by
  constructor
  · rintro rfl
    obtain ⟨w, hw⟩ := Wrapping.exists_isOf body
    exact ⟨w, hw, hw.unwrapBody_eq⟩
  · rintro ⟨w, hw, rfl⟩
    exact hw.unwrapBody_eq

/-! ### Markup -/

/-- What a stretch leaves when the marks are taken out of the body of an element. -/
def Stretch.Leaves : Stretch → Text → Prop
  | char c, left => left = [c]
  | element e, left => ∃ w : Wrapping, w.IsOf e.body ∧ left = e.opening ++ w.bare ++ e.closing

theorem Stretch.leaves_iff {stretch : Stretch} {left : Text} :
    stretch.Leaves left ↔ stretch.unwrap.text = left := by
  match stretch with
  | .char c => exact eq_comm
  | .element e =>
      change (∃ w : Wrapping, w.IsOf e.body ∧ left = e.opening ++ w.bare ++ e.closing) ↔
        e.opening ++ unwrapBody e.body ++ e.closing = left
      constructor
      · rintro ⟨w, hw, rfl⟩
        rw [hw.unwrapBody_eq]
      · rintro rfl
        obtain ⟨w, hw, hbare⟩ := unwrapBody_eq_iff.1 (rfl : unwrapBody e.body = _)
        exact ⟨w, hw, by rw [hbare]⟩

theorem forall₂_leaves_iff {ss : List Stretch} {left : List Text} :
    List.Forall₂ Stretch.Leaves ss left ↔ left = ss.map fun stretch => stretch.unwrap.text := by
  induction ss generalizing left with
  | nil => rw [List.forall₂_nil_left_iff, List.map_nil]
  | cons stretch ss ih =>
      rw [List.forall₂_cons_left_iff, List.map_cons]
      constructor
      · rintro ⟨text, rest, htext, hrest, rfl⟩
        rw [Stretch.leaves_iff.1 htext, ih.1 hrest]
      · rintro rfl
        exact ⟨_, _, Stretch.leaves_iff.2 rfl, ih.2 rfl, rfl⟩

/-- Markup is unwrapped exactly if the marks of comments around bodies, and nothing else, are taken
out of its leftmost script and style elements. -/
theorem unwrap_eq_iff {markup out : Text} :
    unwrap markup = out ↔
      ∃ ss left, IsReading markup ss ∧ List.Forall₂ Stretch.Leaves ss left ∧ out = left.flatten := by
  have hunwrap : unwrap markup =
      ((stretches markup).map fun stretch => stretch.unwrap.text).flatten := by
    rw [unwrap, List.flatMap_map, List.flatMap_def]
  constructor
  · rintro rfl
    exact ⟨_, _, isReading_iff.2 rfl, forall₂_leaves_iff.2 rfl, hunwrap⟩
  · rintro ⟨ss, left, hreading, hleaves, rfl⟩
    rw [hunwrap, ← isReading_iff.1 hreading, forall₂_leaves_iff.1 hleaves]

-- The second mark would begin with the hyphens of the first one, so it stays in part.
example : unwrap "<Script>\n<!--></SCRIPT >--></script>".toList =
    "<Script>\n></SCRIPT >--></script>".toList := by
  decide +kernel

end Stencil.Html.RawText
