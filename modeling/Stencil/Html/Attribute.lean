import Stencil.Html.StartTag
import Stencil.Placeholder.Protect
import Stencil.Text.Case

/-!
# Attributes

The attributes of a start tag, and their protection. An attribute is a name, or a name and a value
with an equals sign between them; a value is quoted or bare. What is neither is passed over.
Protecting markup puts a numbered placeholder in place of the attributes of each start tag that
has any.

A boolean attribute needs no value: its presence says all. Its value is dropped on request, unless
it holds a tag, or a placeholder that may stand for one.
-/

namespace Stencil

def Settings.attributePlaceholders (s : Settings) : Placeholder.Format :=
  s.placeholders "attrs".toList

namespace Html

structure Attribute where
  name : Text
  value : Option Text
deriving DecidableEq, Repr

namespace Attribute

/-- The names of the attributes whose presence says all. -/
def booleanNames : List String :=
  ["allowfullscreen", "async", "autofocus", "autoplay", "checked", "compact", "controls", "declare",
    "default", "defaultchecked", "defaultmuted", "defaultselected", "defer", "disabled", "enabled",
    "formnovalidate", "hidden", "indeterminate", "inert", "ismap", "itemscope", "loop", "multiple",
    "muted", "nohref", "noresize", "noshade", "novalidate", "nowrap", "open", "pauseonexit",
    "readonly", "required", "reversed", "scoped", "seamless", "selected", "sortable", "truespeed",
    "typemustmatch", "visible"]

/-- Whether a name, its capitals taken as small letters, is that of a boolean attribute. -/
def isBoolean (name : Text) : Bool := booleanNames.any fun word => word.toList == Text.lower name

def isNameChar (c : Char) : Bool :=
  !(Text.isBlank c || c == '\x22' || c == '\x27' || c == '<' || c == '>' || c == '/' || c == '=')

/-- A character that can stand in a value without quotes. -/
def isBareChar (c : Char) : Bool :=
  !(Text.isBlank c || c == '\x22' || c == '\x27' || c == '=' || c == '<' || c == '>' || c == '\x60')

/-- The value at the front, quotes included, and what follows it. -/
def valueAfterEquals? : Text → Option (Text × Text)
  | [] => none
  | c :: r =>
    if c = '\x22' ∨ c = '\x27' then
      (Text.cutAfter? c r).map fun p => (c :: p.1 ++ [c], p.2)
    else if isBareChar c then some (c :: r.takeWhile isBareChar, r.dropWhile isBareChar)
    else none

/-- The value after a name: an equals sign, with blanks around it or not, and the value. -/
def value? (s : Text) : Option (Text × Text) :=
  match Text.trimLeft s with
  | '=' :: r => valueAfterEquals? (Text.trimLeft r)
  | _ => none

private theorem length_le_of_valueAfterEquals? {s value rest : Text}
    (h : valueAfterEquals? s = some (value, rest)) : rest.length ≤ s.length := by
  unfold valueAfterEquals? at h
  split at h
  · simp at h
  · next c r =>
    split at h
    · obtain ⟨p, hp, heq⟩ := Option.map_eq_some_iff.1 h
      obtain ⟨_, rfl⟩ := Prod.mk.inj heq
      have := Text.length_lt_of_cutAfter? (show Text.cutAfter? c r = some (p.1, p.2) from hp)
      simp
      omega
    · split at h
      · obtain ⟨_, rfl⟩ := Prod.mk.inj (Option.some.inj h)
        have := (List.dropWhile_sublist isBareChar (l := r)).length_le
        simp
        omega
      · simp at h

theorem length_le_of_value? {s value rest : Text} (h : value? s = some (value, rest)) :
    rest.length ≤ s.length := by
  unfold value? at h
  split at h
  · next r hr =>
    have h1 := length_le_of_valueAfterEquals? h
    have h2 := Text.length_trimLeft_le r
    have h3 := Text.length_trimLeft_le s
    rw [hr] at h3
    simp at h3
    omega
  · simp at h

def readAll : Text → List Attribute
  | [] => []
  | c :: r =>
    if isNameChar c then
      match _h : value? (r.dropWhile isNameChar) with
      | some (value, rest) => ⟨c :: r.takeWhile isNameChar, some value⟩ :: readAll rest
      | none => ⟨c :: r.takeWhile isNameChar, none⟩ :: readAll (r.dropWhile isNameChar)
    else readAll r
termination_by s => s.length
decreasing_by
  · have := length_le_of_value? _h
    have := (List.dropWhile_sublist isNameChar (l := r)).length_le
    simp
    omega
  · have := (List.dropWhile_sublist isNameChar (l := r)).length_le
    simp
    omega
  · simp

/-- Whether a value may hold a tag: it has the opening braces, or the beginning of a placeholder. -/
def mayHoldTag (value : Text) : Bool :=
  Text.occurs Piece.opening value || Text.occurs ({} : Settings).placeholderPrefix value

/-- An attribute as it is written, without a value that says nothing if such values are dropped. -/
def text (collapse : Bool) (a : Attribute) : Text :=
  match a.value with
  | none => a.name
  | some value =>
    if collapse && isBoolean a.name && !mayHoldTag value then a.name else a.name ++ '=' :: value

end Attribute

/-- The attributes of a start tag, a space between each two. -/
def StartTag.attributeText (collapse : Bool) (t : StartTag) : Text :=
  [' '].intercalate ((Attribute.readAll t.attributes).map (Attribute.text collapse))

def StartTag.hasAttributes (t : StartTag) : Bool := !(Attribute.readAll t.attributes).isEmpty

def StartTag.withAttributes (t : StartTag) (attributes : Text) : Text :=
  '<' :: t.name ++ ' ' :: attributes ++ StartTag.ending t.closed

def Markup.attributed (ms : List Markup) : List StartTag :=
  ms.filterMap fun
    | .char _ => none
    | .tag t => if t.hasAttributes then some t else none

/-- The markup with placeholders in place of attributes, the first of which has the given number. -/
def Markup.hideAttributes (f : Placeholder.Format) : Nat → List Markup → Text
  | _, [] => []
  | n, .char c :: ms => c :: hideAttributes f n ms
  | n, .tag t :: ms =>
    if t.hasAttributes then t.withAttributes (f.make n) ++ hideAttributes f (n + 1) ms
    else t.text ++ hideAttributes f n ms

def protectAttributes (f : Placeholder.Format) (collapse : Bool) (markup : Text) : Protected :=
  ⟨Markup.hideAttributes f 0 (Markup.ofText markup),
    (Markup.attributed (Markup.ofText markup)).map (StartTag.attributeText collapse)⟩

end Html

end Stencil
