import Stencil.Placeholder.Format
import Stencil.Template.Piece

/-!
# Protecting text

Protecting a template puts numbered placeholders in place of its tags, so that a minifier meets
plain words where the tags stand. Restoring puts protected text back for each placeholder whose
number is that of a protected text, and leaves any other placeholder as it is.
-/

namespace Stencil

/-- A text with placeholders, and the protected texts by their numbers. -/
structure Protected where
  text : Text
  kept : List Text
deriving DecidableEq, Repr

namespace Placeholder.Format

/-- The pieces with placeholders in place of the tags, the first of which has the given number. -/
def hideTags (f : Format) : Nat → List Piece → Text
  | _, [] => []
  | n, .literal t :: ps => t ++ f.hideTags n ps
  | n, .tag _ :: ps => f.make n ++ f.hideTags (n + 1) ps

def protectTags (f : Format) (source : Text) : Protected :=
  ⟨f.hideTags 0 (Piece.ofText source), Piece.tags (Piece.ofText source)⟩

/-- What stands in place of a character or placeholder once protected text is put back. -/
def fill (f : Format) (kept : List Text) : Format.Part → Except TooLong Text
  | .char c => .ok [c]
  | .hole ds =>
    match readNumber ds with
    | .error e => .error e
    | .ok n => .ok (kept[n]?.getD (f.partText (.hole ds)))

/-- Fills parts in order, up to the first number that is too long. -/
def fillAll (f : Format) (kept : List Text) : List Format.Part → Except TooLong Text
  | [] => .ok []
  | p :: ps =>
    match f.fill kept p with
    | .error e => .error e
    | .ok t => (f.fillAll kept ps).map (t ++ ·)

/-- Puts protected texts back in place of their placeholders. -/
def restore (f : Format) (kept : List Text) (s : Text) : Except TooLong Text :=
  f.fillAll kept (f.parts s)

end Placeholder.Format

end Stencil
