import Stencil.Text.Blank
import Stencil.Validation.Detail

/-!
# Integers in texts

A text may write an integer with spaces around it, a sign, zeros in front, underscores and a
fraction of zeros. These are taken off one after another, and what is left has to be a numeral: an
optional minus, and digits without a zero in front. What stands behind the zeros in front is only
judged as a numeral, so it may still begin with the minus.
-/

namespace Stencil.Text

/-- White space without the information separators. -/
def isSpace (c : Char) : Bool := isBlank c && !(0x1C ≤ c.toNat && c.toNat ≤ 0x1F)

def trimSpace (s : Text) : Text := ((s.dropWhile isSpace).reverse.dropWhile isSpace).reverse

/-- What follows zeros and underscores: a digit or minus with all that comes after it, a point with
the last of them, or the last of them alone. -/
def afterZeros? (last : Char) : Text → Option Text
  | [] => some [last]
  | c :: r =>
    if c = '0' ∨ c = '_' then afterZeros? c r
    else if c = '.' then some (last :: c :: r)
    else if c.isDigit ∨ c = '-' then some (c :: r)
    else none

/-- The text without zeros in front, if it begins with a digit or a minus. -/
def dropZeros? : Text → Option Text
  | [] => none
  | c :: r =>
    if c = '0' then afterZeros? c r else if c.isDigit ∨ c = '-' then some (c :: r) else none

/-- What stands before a point that zeros and nothing else follow, or the whole text. -/
def dropZeroFraction (s : Text) : Text :=
  match cutAfter? '.' s with
  | some (whole, fraction) =>
    if !fraction.isEmpty && fraction.all (· == '0') then whole else s
  | none => s

/-- The text without its underscores, if each of them stands alone and between other characters. -/
def dropUnderscores (s : Text) : Text :=
  if s.head? = some '_' ∨ s.getLast? = some '_' ∨ occurs ['_', '_'] s then s
  else s.filter (· != '_')

/-- The numeral that is left of a text without a sign. -/
def unsignedNumeral? (s : Text) : Option Text :=
  (dropZeros? s).map fun r => dropUnderscores (dropZeroFraction r)

def numeral? (s : Text) : Option Text :=
  match trimSpace s with
  | '-' :: r => (unsignedNumeral? r).map ('-' :: ·)
  | '+' :: r => if r.head? = some '-' then none else unsignedNumeral? r
  | r => unsignedNumeral? r

def maxDigits : Nat := 4300

def dropMinus : Text → Text
  | '-' :: r => r
  | r => r

/-- Whether a text begins like a numeral and goes on with too many digits. -/
def isTooLong (s : Text) : Bool :=
  let digits := (dropMinus s).takeWhile Char.isDigit
  digits.head? != some '0' && maxDigits < digits.length

def ofDigits? (s : Text) : Option Nat :=
  if s = ['0'] then some 0
  else if s.isEmpty ∨ s.head? = some '0' ∨ maxDigits < s.length ∨ !s.all Char.isDigit then none
  else some (s.foldl (fun n c => 10 * n + (c.toNat - 48)) 0)

def ofNumeral? : Text → Option Int
  | '-' :: r => (ofDigits? r).map fun n => -(n : Int)
  | r => (ofDigits? r).map fun n => (n : Int)

/-- Reads the integer that a text writes. Only a text that is too long as it stands is told so. -/
def toInteger (s : Text) : Except Finding Int :=
  if isTooLong s then .error .integerTooLarge
  else
    match (numeral? s).bind ofNumeral? with
    | some n => .ok n
    | none => .error .noInteger

end Stencil.Text
