import Stencil.Text.Blank

/-!
# Start tags

A start tag is a name in angle brackets, a blank, and the list of its attributes. Between quotes
an angle bracket does not end the tag; a quote that is not closed makes the whole no tag. A slash
right before the end is not part of the attributes.
-/

namespace Stencil.Html

/-- A start tag with room for attributes. -/
structure StartTag where
  name : Text
  /-- Everything between the name and the end, with the blank after the name. -/
  attributes : Text
  /-- Whether a slash stands before the end. -/
  closed : Bool
deriving DecidableEq, Repr

namespace StartTag

def ending (closed : Bool) : Text := if closed then ['/', '>'] else ['>']

def text (t : StartTag) : Text := '<' :: t.name ++ t.attributes ++ ending t.closed

def isNameStart (c : Char) : Bool := ('a' ≤ c && c ≤ 'z') || ('A' ≤ c && c ≤ 'Z')

def isNameChar (c : Char) : Bool := !(Text.isBlank c || c == '/' || c == '>')

/-- The list up to the end of a start tag, whether a slash stands there, and what follows. -/
def cutEnd? : Text → Option (Text × Bool × Text)
  | [] => none
  | '/' :: '>' :: r => some ([], true, r)
  | c :: r =>
    if c = '>' then some ([], false, r)
    else if c = '\x22' ∨ c = '\x27' then
      match _h : Text.cutAfter? c r with
      | some (quoted, rest) => (cutEnd? rest).map fun p => (c :: quoted ++ c :: p.1, p.2)
      | none => none
    else (cutEnd? r).map fun p => (c :: p.1, p.2)
termination_by s => s.length
decreasing_by
  · have := Text.length_lt_of_cutAfter? _h
    simp
    omega
  · simp

theorem eq_of_cutEnd? {s list rest : Text} {closed : Bool}
    (h : cutEnd? s = some (list, closed, rest)) : s = list ++ ending closed ++ rest := by
  fun_induction cutEnd? s generalizing list with
  | case1 => simp at h
  | case2 r =>
    simp only [Option.some.injEq, Prod.mk.injEq] at h
    obtain ⟨rfl, rfl, rfl⟩ := h
    rfl
  | case3 r =>
    simp only [Option.some.injEq, Prod.mk.injEq] at h
    obtain ⟨rfl, rfl, rfl⟩ := h
    rfl
  | case4 c r _ _ hq quoted rest' hc ih =>
    obtain ⟨p, hp, heq⟩ := Option.map_eq_some_iff.1 h
    simp only [Prod.mk.injEq] at heq
    obtain ⟨rfl, he⟩ := heq
    have hr : rest' = p.1 ++ ending closed ++ rest := ih (by rw [hp, ← he])
    rw [Text.eq_of_cutAfter? hc, hr]
    simp
  | case5 => simp at h
  | case6 c r _ _ _ ih =>
    obtain ⟨p, hp, heq⟩ := Option.map_eq_some_iff.1 h
    simp only [Prod.mk.injEq] at heq
    obtain ⟨rfl, he⟩ := heq
    have hr : r = p.1 ++ ending closed ++ rest := ih (by rw [hp, ← he])
    rw [hr]
    simp

/-- The start tag after an angle bracket and the first letter of a name. -/
def matchName? (first : Char) (s : Text) : Option (StartTag × Text) :=
  match s.dropWhile isNameChar with
  | [] => none
  | b :: r =>
    if Text.isBlank b then
      (cutEnd? r).map fun p => (⟨first :: s.takeWhile isNameChar, b :: p.1, p.2.1⟩, p.2.2)
    else none

/-- The start tag at the front, and what follows it. -/
def match? : Text → Option (StartTag × Text)
  | '<' :: c :: r => if isNameStart c then matchName? c r else none
  | _ => none

theorem eq_of_match? {s rest : Text} {t : StartTag} (h : match? s = some (t, rest)) :
    s = t.text ++ rest := by
  unfold match? at h
  split at h
  · next c r =>
    split at h
    · simp only [matchName?] at h
      split at h
      · simp at h
      · next b r' hr =>
        split at h
        · obtain ⟨p, hp, heq⟩ := Option.map_eq_some_iff.1 h
          obtain ⟨rfl, rfl⟩ := Prod.mk.inj heq
          have hs := List.takeWhile_append_dropWhile (p := isNameChar) (l := r)
          rw [hr, eq_of_cutEnd? (show cutEnd? r' = some (p.1, p.2.1, p.2.2) from hp)] at hs
          generalize r.takeWhile isNameChar = name at hs ⊢
          simp [text, ← hs]
        · simp at h
    · simp at h
  · simp at h

theorem length_lt_of_match? {s rest : Text} {t : StartTag} (h : match? s = some (t, rest)) :
    rest.length < s.length := by
  rw [eq_of_match? h]
  simp [text]
  omega

end StartTag

/-- A stretch of markup. -/
inductive Markup where
  | char (c : Char)
  | tag (t : StartTag)
deriving DecidableEq, Repr

namespace Markup

def text : Markup → Text
  | char c => [c]
  | tag t => t.text

def ofText (s : Text) : List Markup :=
  match _h : StartTag.match? s with
  | some (t, rest) => tag t :: ofText rest
  | none =>
    match s with
    | [] => []
    | c :: r => char c :: ofText r
termination_by s.length
decreasing_by
  · exact StartTag.length_lt_of_match? _h
  · simp

theorem flatMap_text_ofText (s : Text) : (ofText s).flatMap text = s := by
  fun_induction ofText s with
  | case1 s t rest h ih => simp [ih, text, StartTag.eq_of_match? h]
  | case2 => rfl
  | case3 c r h ih => simp [ih, text]

end Markup

end Stencil.Html
