import Stencil.Text.Basic

/-!
# Findings of a validation

Validation looks at every field and reports all that is wrong, each finding with the path to the
value it is about.
-/

namespace Stencil

inductive Finding where
  /-- A word or number that is neither true nor false. -/
  | noBoolean
  /-- A value that cannot be read as true or false at all. -/
  | notBoolean
  /-- A text that writes no integer. -/
  | noInteger
  | integerTooLarge
  /-- A number that is infinite or undefined. -/
  | notFinite
  | fraction
  | notInteger
  | notText
  /-- A value that is no object of options. -/
  | notModel (model : Text)
  | unknownField
  /-- A check of the whole that fails, with its wording. -/
  | refused (message : Text)
deriving DecidableEq, Repr

namespace Finding

def kind : Finding → String
  | noBoolean => "bool_parsing"
  | notBoolean => "bool_type"
  | noInteger => "int_parsing"
  | integerTooLarge => "int_parsing_size"
  | notFinite => "finite_number"
  | fraction => "int_from_float"
  | notInteger => "int_type"
  | notText => "string_type"
  | notModel _ => "model_type"
  | unknownField => "extra_forbidden"
  | refused _ => "value_error"

def message : Finding → Text
  | noBoolean => "Input should be a valid boolean, unable to interpret input".toList
  | notBoolean => "Input should be a valid boolean".toList
  | noInteger => "Input should be a valid integer, unable to parse string as an integer".toList
  | integerTooLarge =>
    "Unable to parse input string as an integer, exceeded maximum size".toList
  | notFinite => "Input should be a finite number".toList
  | fraction => "Input should be a valid integer, got a number with a fractional part".toList
  | notInteger => "Input should be a valid integer".toList
  | notText => "Input should be a valid string".toList
  | notModel model =>
    "Input should be a valid dictionary or instance of ".toList ++ model
  | unknownField => "Extra inputs are not permitted".toList
  | refused text => "Value error, ".toList ++ text

end Finding

/-- A finding and the path of keys to the value it is about. -/
structure Detail where
  finding : Finding
  location : List Text
deriving DecidableEq, Repr

/-- The detail as it is seen from a member that holds the value. -/
def Detail.under (key : Text) (d : Detail) : Detail := { d with location := key :: d.location }

/-- A value, or everything that is wrong with what it was read from. -/
abbrev Validated (α : Type) := Except (List Detail) α

namespace Validated

/-- Applies a validated function to a validated value. What is wrong with either is kept. -/
def apply {α β : Type} : Validated (α → β) → Validated α → Validated β
  | .ok f, .ok a => .ok (f a)
  | .ok _, .error e => .error e
  | .error d, .ok _ => .error d
  | .error d, .error e => .error (d ++ e)

def ofReading {α : Type} (location : List Text) : Except Finding α → Validated α
  | .ok a => .ok a
  | .error finding => .error [⟨finding, location⟩]

end Validated

end Stencil
