import Stencil.Text.Blank
import Stencil.Text.Case
import Stencil.Text.Word

/-!
# Script and style elements

The body of a script or style element is text and not markup, and reaches to the first end tag of
the same name. Old pages wrap it into a comment; `unwrap` removes the two marks of such a comment
and leaves every other character as it is.
-/

namespace Stencil.Html

/-- A script or style element. -/
structure RawText where
  opening : Text
  body : Text
  closing : Text
deriving DecidableEq, Repr

namespace RawText

def text (e : RawText) : Text := e.opening ++ e.body ++ e.closing

/-- The name of a script or style element at the front, and what follows it. -/
def dropName? (s : Text) : Option (Text × Text) :=
  (Text.dropWord? "script".toList s <|> Text.dropWord? "style".toList s).filter
    fun p => Text.atWordEnd p.2

/-- The start tag of an element at the front, its name, and what follows it. -/
def opening? : Text → Option (Text × Text × Text)
  | '<' :: s =>
    (dropName? s).bind fun named =>
      (Text.cutAfter? '>' named.2).map fun cut =>
        ('<' :: named.1 ++ cut.1 ++ ['>'], named.1, cut.2)
  | _ => none

def closing? (name : Text) : Text → Option (Text × Text)
  | '<' :: '/' :: s =>
    if Text.sameLetters name (s.take name.length) then
      match (s.drop name.length).dropWhile Text.isBlank with
      | '>' :: rest =>
        some ('<' :: '/' :: s.take name.length
          ++ (s.drop name.length).takeWhile Text.isBlank ++ ['>'], rest)
      | _ => none
    else none
  | _ => none

/-- What stands before the first end tag of a name, the end tag, and what follows it. -/
def cutClosing? (name : Text) : Text → Option (Text × Text × Text)
  | [] => none
  | c :: r =>
    match closing? name (c :: r) with
    | some (closing, rest) => some ([], closing, rest)
    | none => (cutClosing? name r).map fun p => (c :: p.1, p.2)

/-- The element at the front, and what follows it. -/
def match? (s : Text) : Option (RawText × Text) :=
  (opening? s).bind fun o =>
    (cutClosing? o.2.1 o.2.2).map fun p => (⟨o.1, p.1, p.2.1⟩, p.2.2)

theorem eq_of_opening? {s opening name rest : Text} (h : opening? s = some (opening, name, rest)) :
    s = opening ++ rest ∧ opening ≠ [] := by
  unfold opening? at h
  split at h
  · next t =>
    obtain ⟨named, hn, h⟩ := Option.bind_eq_some_iff.1 h
    obtain ⟨cut, hc, heq⟩ := Option.map_eq_some_iff.1 h
    simp only [Prod.mk.injEq] at heq
    obtain ⟨rfl, rfl, rfl⟩ := heq
    have hcut := Text.eq_of_cutAfter?
      (show Text.cutAfter? '>' named.2 = some (cut.1, cut.2) from hc)
    have hw : t = named.1 ++ named.2 := by
      simp only [dropName?, Option.filter_eq_some_iff] at hn
      rcases Option.or_eq_some_iff.1 (show (_ : Option _).or _ = some named from by
        simpa using hn.1) with h1 | ⟨_, h1⟩
      · exact (Text.append_of_dropWord?
          (show Text.dropWord? "script".toList t = some (named.1, named.2) from h1)).1
      · exact (Text.append_of_dropWord?
          (show Text.dropWord? "style".toList t = some (named.1, named.2) from h1)).1
    refine ⟨?_, by simp⟩
    rw [hw, hcut]
    simp
  · simp at h

theorem eq_of_closing? {name s closing rest : Text} (h : closing? name s = some (closing, rest)) :
    s = closing ++ rest := by
  unfold closing? at h
  split at h
  · next t =>
    split at h
    · split at h
      · next r hr =>
        obtain ⟨rfl, rfl⟩ := Prod.mk.inj (Option.some.inj h)
        have h1 := List.takeWhile_append_dropWhile (p := Text.isBlank) (l := t.drop name.length)
        rw [hr] at h1
        have h2 := List.take_append_drop name.length t
        rw [← h1] at h2
        generalize t.take name.length = a at h2 ⊢
        generalize (t.drop name.length).takeWhile Text.isBlank = b at h2 ⊢
        simp [← h2]
      · simp at h
    · simp at h
  · simp at h

theorem eq_of_cutClosing? {name s body closing rest : Text}
    (h : cutClosing? name s = some (body, closing, rest)) : s = body ++ closing ++ rest := by
  induction s generalizing body with
  | nil => simp [cutClosing?] at h
  | cons c r ih =>
    simp only [cutClosing?] at h
    split at h
    · next hc =>
      simp only [Option.some.injEq, Prod.mk.injEq] at h
      obtain ⟨rfl, rfl, rfl⟩ := h
      exact eq_of_closing? hc
    · obtain ⟨p, hp, heq⟩ := Option.map_eq_some_iff.1 h
      simp only [Prod.mk.injEq] at heq
      obtain ⟨rfl, he⟩ := heq
      have hr : r = p.1 ++ closing ++ rest := ih (by rw [hp, ← he])
      rw [hr]
      simp

theorem eq_of_match? {s rest : Text} {e : RawText} (h : match? s = some (e, rest)) :
    s = e.text ++ rest ∧ e.opening ≠ [] := by
  obtain ⟨o, ho, h⟩ := Option.bind_eq_some_iff.1 h
  obtain ⟨p, hp, heq⟩ := Option.map_eq_some_iff.1 h
  obtain ⟨rfl, rfl⟩ := Prod.mk.inj heq
  obtain ⟨h1, hne⟩ := eq_of_opening? (show opening? s = some (o.1, o.2.1, o.2.2) from ho)
  have h2 := eq_of_cutClosing?
    (show cutClosing? o.2.1 o.2.2 = some (p.1, p.2.1, p.2.2) from hp)
  refine ⟨?_, hne⟩
  rw [h1, h2]
  simp [text]

theorem length_lt_of_match? {s rest : Text} {e : RawText} (h : match? s = some (e, rest)) :
    rest.length < s.length := by
  obtain ⟨he, hne⟩ := eq_of_match? h
  have := List.length_pos_iff.2 hne
  rw [he]
  simp [text]
  omega

inductive Stretch where
  /-- A character outside the elements. -/
  | char (c : Char)
  | element (e : RawText)
deriving DecidableEq, Repr

def Stretch.text : Stretch → Text
  | char c => [c]
  | element e => e.text

/-- Reads markup as characters and script and style elements. -/
def stretches (s : Text) : List Stretch :=
  match _h : match? s with
  | some (e, rest) => .element e :: stretches rest
  | none =>
    match s with
    | [] => []
    | c :: r => .char c :: stretches r
termination_by s.length
decreasing_by
  · exact length_lt_of_match? _h
  · simp

theorem flatMap_text_stretches (s : Text) : (stretches s).flatMap Stretch.text = s := by
  fun_induction stretches s with
  | case1 s e rest h ih => simp [ih, Stretch.text, (eq_of_match? h).1]
  | case2 => rfl
  | case3 c r h ih => simp [ih, Stretch.text]

def commentOpening : Text := "<!--".toList

def commentClosing : Text := "-->".toList

/-- A body without the mark that begins a comment, if only blanks stand before it. -/
def dropCommentOpening (body : Text) : Text :=
  match Text.dropFront? commentOpening (body.dropWhile Text.isBlank) with
  | some rest => body.takeWhile Text.isBlank ++ rest
  | none => body

/-- A body without the mark that ends a comment, if only blanks follow it. -/
def dropCommentClosing (body : Text) : Text :=
  match Text.dropFront? commentClosing.reverse (body.reverse.dropWhile Text.isBlank) with
  | some rest => rest.reverse ++ (body.reverse.takeWhile Text.isBlank).reverse
  | none => body

def unwrapBody (body : Text) : Text := dropCommentClosing (dropCommentOpening body)

def Stretch.unwrap : Stretch → Stretch
  | char c => char c
  | element e => element { e with body := unwrapBody e.body }

/-- Markup with the comments around the bodies of script and style elements removed. -/
def unwrap (markup : Text) : Text := ((stretches markup).map Stretch.unwrap).flatMap Stretch.text

end RawText

end Stencil.Html
