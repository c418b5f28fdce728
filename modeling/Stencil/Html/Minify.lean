import Stencil.Failure
import Stencil.Html.Attribute
import Stencil.Html.RawText

/-!
# Minification of markup

Markup is minified by an outside function. The standard way prepares the markup for it: comments
around script and style bodies are removed, and attributes are hidden behind placeholders unless
the outside function is to deal with them. A caller can also supply a minifier of their own, which
is given the markup and the options as they are. Every call of an outside function is recorded.
-/

namespace Stencil

structure Call where
  text : Text
  options : Object

/-- An outside function, which gives a value, normally a text, or fails. -/
abbrev External := Text → Object → Except Failure Json

/-- What was given back, and the calls that were made for it. -/
structure Reply where
  result : Except Failure Json
  calls : List Call

def External.call (f : External) (text : Text) (options : Object) : Reply :=
  ⟨f text options, [⟨text, options⟩]⟩

/-- Puts protected texts back in a value, which has to be a text. -/
def Placeholder.Format.restoreValue (f : Placeholder.Format) (kept : List Text) :
    Json → Except Failure Text
  | .string text =>
    match f.restore kept text with
    | .ok restored => .ok restored
    | .error e => .error (.tooLong e)
  | value => .error (.notText value)

namespace Html

/-- The placeholders for attributes, which are those of the default settings for every template. -/
def attributeFormat : Placeholder.Format := ({} : Settings).attributePlaceholders

/-- The markup as it is prepared before attributes are looked at. -/
def prepare (text : Text) (o : Object) : Text :=
  if isOn o .removeCommentsFromCdata then RawText.unwrap text else text

def minify (leaf : External) (text : Text) (o : Object) : Reply :=
  match check o with
  | .error cause => ⟨.error (.conflict cause), []⟩
  | .ok false => External.call leaf (prepare text o) (arguments o)
  | .ok true =>
    let hidden := protectAttributes attributeFormat (isOn o .collapseBooleanAttributes)
      (prepare text o)
    let reply := External.call leaf hidden.text (arguments o)
    match reply.result with
    | .error e => ⟨.error e, reply.calls⟩
    | .ok value =>
      ⟨(attributeFormat.restoreValue hidden.kept value).map Json.string, reply.calls⟩

end Html

inductive Minifier where
  /-- A function of the caller. -/
  | supplied (f : External)
  /-- The standard way over an outside function. -/
  | standard (leaf : External)

def Minifier.run (m : Minifier) (text : Text) (options : Object) : Reply :=
  match m with
  | supplied f => External.call f text options
  | standard leaf => Html.minify leaf text options

end Stencil
