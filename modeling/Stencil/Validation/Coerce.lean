import Stencil.Json.Basic
import Stencil.Validation.Numeral

/-!
# Reading fields

A field is read from a data value by the meaning of the value and not by its kind alone: a word
such as `yes` or the number one is true, and a text of digits is an integer.
-/

namespace Stencil

def falseWords : List Text :=
  ["0".toList, "off".toList, "f".toList, "false".toList, "n".toList, "no".toList]

def trueWords : List Text :=
  ["1".toList, "on".toList, "t".toList, "true".toList, "y".toList, "yes".toList]

/-- The truth value that a word names, its capitals taken as small letters. -/
def Text.toBool? (s : Text) : Option Bool :=
  let word := s.map Char.toLower
  if word ∈ falseWords then some false else if word ∈ trueWords then some true else none

/-- The least integer of 64 bits with a sign. -/
def minWord : Int := -0x8000000000000000

def maxWord : Int := 0x7FFFFFFFFFFFFFFF

/-- Zero is false and one is true. -/
def boolOfInt (n : Int) : Except Finding Bool :=
  if n = 0 then .ok false
  else if n = 1 then .ok true
  else if minWord ≤ n ∧ n ≤ maxWord then .error .noBoolean
  else .error .notBoolean

/-- The integer that a number is worth. The least of 64 bits already counts as too large. -/
def Number.toWord : Number → Except Finding Int
  | .finite value =>
    match value.nearest.toInt? with
    | some n => if minWord < n ∧ n ≤ maxWord then .ok n else .error .integerTooLarge
    | none => .error .fraction
  | _ => .error .notFinite

def Json.toBool : Json → Except Finding Bool
  | .bool b => .ok b
  | .int n => boolOfInt n
  | .real x =>
    match x.toWord with
    | .ok n => boolOfInt n
    | .error _ => .error .notBoolean
  | .string s =>
    match s.toBool? with
    | some b => .ok b
    | none => .error .noBoolean
  | _ => .error .notBoolean

def Json.toInt : Json → Except Finding Int
  | .bool b => .ok (if b then 1 else 0)
  | .int n => .ok n
  | .real x => x.toWord
  | .string s => Text.toInteger s
  | _ => .error .notInteger

def Json.toText : Json → Except Finding Text
  | .string s => .ok s
  | _ => .error .notText

@[simp] theorem Json.toBool_bool (b : Bool) : Json.toBool (.bool b) = .ok b := rfl

@[simp] theorem Json.toInt_int (n : Int) : Json.toInt (.int n) = .ok n := rfl

@[simp] theorem Json.toText_string (s : Text) : Json.toText (.string s) = .ok s := rfl

end Stencil
