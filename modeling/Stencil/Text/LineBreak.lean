import Stencil.Text.Basic

/-!
# Line breaks

Four spellings end a line: a carriage return followed by a line feed, the two the other way round,
and either alone. The longer spelling is taken where one stands. `units` reads a text as
characters and line breaks, and everything said about lines is said through it: their number, and
the form in which a text stands between single quotes.
-/

namespace Stencil.Text

/-- The text as a sequence of characters and, for each line break, `none`. -/
def units : Text → List (Option Char)
  | '\r' :: '\n' :: r => none :: units r
  | '\n' :: '\r' :: r => none :: units r
  | '\n' :: r => none :: units r
  | '\r' :: r => none :: units r
  | c :: r => some c :: units r
  | [] => []

/-- The number of lines: one more than there are line breaks. -/
def lineCount (s : Text) : Nat := (units s).count none + 1

/-- A line break is written as a backslash and an n, and a single quote after a backslash. -/
def escapeUnit : Option Char → Text
  | none => ['\\', 'n']
  | some c => if c = '\x27' then ['\\', '\x27'] else [c]

/-- The text in the form in which it stands between single quotes. What is already escaped is
escaped again. -/
def escape (s : Text) : Text := (units s).flatMap escapeUnit

@[simp] theorem units_nil : units [] = [] := by simp [units]

@[simp] theorem escape_nil : escape [] = [] := by simp [escape]

theorem units_cons {c : Char} (hn : c ≠ '\n') (hr : c ≠ '\r') (s : Text) :
    units (c :: s) = some c :: units s := by
  rw [units] <;> simp_all

theorem lineCount_pos (s : Text) : 0 < lineCount s := Nat.succ_pos _

end Stencil.Text
