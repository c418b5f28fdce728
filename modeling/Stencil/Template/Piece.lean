import Stencil.Template.Directive

/-!
# Pieces of a template

A template is cut into literal text and tags. A tag begins at two opening braces and ends at the
first two closing braces after them; opening braces that nothing closes are literal text, and so
is all that follows them. The pieces in order give the template back, no literal piece is empty,
and no two stand side by side.
-/

namespace Stencil

inductive Piece where
  /-- Text outside the tags. -/
  | literal (text : Text)
  /-- A tag, by what stands between its braces. -/
  | tag (inner : Text)
deriving DecidableEq, Repr

namespace Piece

def opening : Text := ['{', '{']

def closing : Text := ['}', '}']

def text : Piece → Text
  | literal t => t
  | tag inner => opening ++ inner ++ closing

/-- What stands before and after the first two closing braces. -/
def cutClosing? : Text → Option (Text × Text)
  | [] => none
  | '}' :: '}' :: r => some ([], r)
  | c :: r => (cutClosing? r).map fun p => (c :: p.1, p.2)

theorem eq_of_cutClosing? {s before after : Text} (h : cutClosing? s = some (before, after)) :
    s = before ++ closing ++ after := by
  fun_induction cutClosing? s generalizing before with
  | case1 => simp at h
  | case2 r =>
    obtain ⟨rfl, rfl⟩ := Prod.mk.inj (Option.some.inj h)
    rfl
  | case3 c r hne ih =>
    obtain ⟨p, hp, heq⟩ := Option.map_eq_some_iff.1 h
    obtain ⟨rfl, rfl⟩ := Prod.mk.inj heq
    rw [ih hp]
    simp

theorem length_lt_of_cutClosing? {s before after : Text}
    (h : cutClosing? s = some (before, after)) : after.length < s.length := by
  rw [eq_of_cutClosing? h]
  simp [closing]
  omega

def consLiteral (c : Char) : List Piece → List Piece
  | literal t :: ps => literal (c :: t) :: ps
  | ps => literal [c] :: ps

/-- Cuts a template into literal text and tags. -/
def ofText : Text → List Piece
  | '{' :: '{' :: r =>
    match _h : cutClosing? r with
    | some (inner, rest) => tag inner :: ofText rest
    | none => [literal ('{' :: '{' :: r)]
  | c :: r => consLiteral c (ofText r)
  | [] => []
termination_by s => s.length
decreasing_by
  · have := length_lt_of_cutClosing? _h
    simp
    omega
  · simp

def tagText? : Piece → Option Text
  | literal _ => none
  | tag inner => some (tag inner).text

def tags (pieces : List Piece) : List Text := pieces.filterMap tagText?

theorem flatMap_text_consLiteral (c : Char) (ps : List Piece) :
    (consLiteral c ps).flatMap text = c :: ps.flatMap text := by
  match ps with
  | [] => rfl
  | literal t :: ps => simp [consLiteral, text]
  | tag inner :: ps => simp [consLiteral, text]

theorem flatMap_text_ofText (s : Text) : (ofText s).flatMap text = s := by
  fun_induction ofText s with
  | case1 r inner rest h ih =>
    simp [ih, text, eq_of_cutClosing? h, opening]
  | case2 r h => simp [text]
  | case3 c r hne ih => simp [flatMap_text_consLiteral, ih]
  | case4 => rfl

end Piece

end Stencil
