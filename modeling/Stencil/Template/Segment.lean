import Stencil.Template.Piece

/-!
# Segments

The pieces of an escaped template with the place of each, and every tag read as a directive. A
place is the number of characters before the segment, which is what an error about the tag
reports.
-/

namespace Stencil

/-- A piece of a template and its place. -/
inductive Segment where
  | literal (text : Text) (position : Nat)
  /-- A tag, what it asks for, and its text with the braces. -/
  | directive (directive : Directive) (position : Nat) (text : Text)
deriving DecidableEq, Repr

namespace Segment

def text : Segment → Text
  | literal t _ => t
  | directive _ _ t => t

/-- The number of characters before a segment. -/
def position : Segment → Nat
  | literal _ p => p
  | directive _ p _ => p

def ofPiece (position : Nat) : Piece → Segment
  | .literal t => literal t position
  | .tag inner => directive (Directive.ofInner inner) position (Piece.tag inner).text

/-- The segments of consecutive pieces, the first of which stands at the given place. -/
def locate : Nat → List Piece → List Segment
  | _, [] => []
  | position, p :: ps => ofPiece position p :: locate (position + p.text.length) ps

def scan (s : Text) : List Segment := locate 0 (Piece.ofText s)

@[simp] theorem text_ofPiece (position : Nat) (p : Piece) : (ofPiece position p).text = p.text := by
  cases p <;> rfl

@[simp] theorem position_ofPiece (place : Nat) (p : Piece) :
    (ofPiece place p).position = place := by
  cases p <;> rfl

theorem map_text_locate (place : Nat) (ps : List Piece) :
    (locate place ps).map text = ps.map Piece.text := by
  induction ps generalizing place with
  | nil => rfl
  | cons p ps ih => simp [locate, ih]

theorem flatMap_text_scan (s : Text) : (scan s).flatMap text = s := by
  rw [scan, List.flatMap_def, map_text_locate, ← List.flatMap_def, Piece.flatMap_text_ofText]

end Segment

end Stencil
