import Stencil.Options.Basic

/-!
# What is asked of the markup minifier

The markup minifier has options of its own, and some wishes it cannot fulfil: it always collapses
white space, it shortens attributes in all ways or in none, and if it shortens them it always
collapses boolean attributes. If attributes are not to be shortened, they are hidden from it.
Options are read here by whether their values are empty, and members that are no known option are
handed on as they are.
-/

namespace Stencil.Html

/-- A wish that the markup minifier cannot fulfil. -/
inductive Conflict where
  | keepsWhitespace
  /-- Attributes are to be shortened in some ways and not in others. -/
  | mixedAttributes (quotes redundant empty : Bool)
  /-- Attributes are to be shortened, but boolean attributes kept. -/
  | keepsBooleanValues
deriving DecidableEq, Repr

namespace Conflict

def truthWord (b : Bool) : Text := if b then "True".toList else "False".toList

def entry (f : HtmlFlag) (b : Bool) : Text :=
  "'".toList ++ f.key ++ "': ".toList ++ truthWord b

def message : Conflict → Text
  | keepsWhitespace =>
    ("minify-html always collapses whitespace; "
      ++ "collapseWhitespace=False cannot be honored").toList
  | mixedAttributes quotes redundant empty =>
    ("minify-html rewrites attribute quotes, redundant and empty attributes together; "
      ++ "cannot honor \x7b").toList
      ++ (", ".toList).intercalate
        [entry .removeAttributeQuotes quotes, entry .removeRedundantAttributes redundant,
          entry .removeEmptyAttributes empty]
      ++ "\x7d".toList
  | keepsBooleanValues =>
    ("minify-html always collapses boolean attributes when it rewrites attributes; "
      ++ "collapseBooleanAttributes=False cannot be honored").toList

end Conflict

/-- Whether an option is on among members in camel case. -/
def isOn (o : Object) (f : HtmlFlag) : Bool :=
  match o.get? f.key with
  | some value => value.isGiven
  | none => f.default

def hidesAttributes (o : Object) : Except Conflict Bool :=
  match isOn o .removeAttributeQuotes, isOn o .removeRedundantAttributes,
    isOn o .removeEmptyAttributes with
  | false, false, false => .ok true
  | true, true, true => .ok false
  | quotes, redundant, empty => .error (.mixedAttributes quotes redundant empty)

/-- Checks that every wish can be fulfilled, and says whether attributes are hidden. -/
def check (o : Object) : Except Conflict Bool :=
  if isOn o .collapseWhitespace then
    match hidesAttributes o with
    | .ok false =>
      if isOn o .collapseBooleanAttributes then .ok false else .error .keepsBooleanValues
    | outcome => outcome
  else .error .keepsWhitespace

def isKnown (key : Text) : Bool := HtmlFlag.all.any fun f => f.key == key

def unknown (o : Object) : Object := o.filter fun m => !isKnown m.1

def knownArguments (o : Object) : Object :=
  [("keep_comments".toList, .bool !isOn o .removeComments),
    ("keep_closing_tags".toList, .bool !isOn o .removeOptionalTags),
    ("keep_html_and_head_opening_tags".toList, .bool !isOn o .removeOptionalTags),
    ("keep_input_type_text_attr".toList, .bool !isOn o .removeRedundantAttributes),
    ("minify_doctype".toList, .bool (isOn o .useShortDoctype)),
    ("preserve_brace_template_syntax".toList, .bool true)]

def arguments (o : Object) : Object := Table.update (knownArguments o) (unknown o)

theorem hidesAttributes_of_check {o : Object} {b : Bool} (h : check o = .ok b) :
    hidesAttributes o = .ok b := by
  simp only [check] at h
  split at h
  · split at h
    · next hf =>
      split at h
      · rw [hf, ← Except.ok.inj h]
      · simp at h
    · exact h
  · simp at h

end Stencil.Html
