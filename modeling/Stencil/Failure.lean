import Stencil.Html.Request
import Stencil.Placeholder.Format
import Stencil.Text.Quoted

/-!
# Failures of minification

What can go wrong while a template is minified: the outside function fails in some way of its own,
the options ask for what cannot be done, or what comes back cannot be used. An interruption is a
failure that nothing inside a compilation may handle.
-/

namespace Stencil

/-- Why minification fails. -/
inductive Failure where
  /-- The outside function refuses a value. -/
  | invalid (message : Text)
  /-- The outside function fails while it runs. -/
  | runtime (message : Text)
  | missingKey (key : Text)
  | interrupt (message : Text)
  | conflict (cause : Html.Conflict)
  /-- A placeholder in the minified text has too long a number. -/
  | tooLong (cause : Placeholder.TooLong)
  /-- What the outside function gives is no text. -/
  | notText (found : Json)

namespace Failure

def message : Failure → Text
  | invalid text | runtime text | interrupt text => text
  | missingKey key => Text.Quoted.encode key
  | conflict cause => cause.message
  | tooLong cause => cause.message
  | notText found =>
    "expected string or bytes-like object, got '".toList ++ found.typeName.toList ++ "'".toList

def isInterrupt : Failure → Bool
  | interrupt _ => true
  | _ => false

end Failure

end Stencil
