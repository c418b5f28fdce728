import Stencil.Text.Blank

/-!
# Directives

What a tag asks for: a kind, named by the keyword at the front of the tag, and an expression, the
rest of it. Blanks around either carry no meaning. A tag without a keyword is an interpolation,
and the whole of it is the expression.
-/

namespace Stencil

/-- What a tag of a template does. -/
inductive Kind where
  | each
  | eachEnd
  | hide
  | hideEnd
  | selectedIf
  | checkedIf
  | partialCall
  | key
  | interpolation
deriving DecidableEq, Repr

namespace Kind

/-- The kinds, in the order in which their keywords are tried at the front of a tag. -/
def all : List Kind :=
  [each, eachEnd, hide, hideEnd, selectedIf, checkedIf, key, partialCall, interpolation]

/-- The word at the front of a tag that names the kind. -/
def keyword : Kind → Text
  | each => "#each".toList
  | eachEnd => "/each".toList
  | hide => "#hide".toList
  | hideEnd => "/hide".toList
  | selectedIf => "@selectedIf".toList
  | checkedIf => "@checkedIf".toList
  | partialCall => ">".toList
  | key => "@key".toList
  | interpolation => []

def name : Kind → Text
  | each => "EACH".toList
  | eachEnd => "EACH_END".toList
  | hide => "HIDE".toList
  | hideEnd => "HIDE_END".toList
  | selectedIf => "SELECTED_IF".toList
  | checkedIf => "CHECKED_IF".toList
  | partialCall => "PARTIAL".toList
  | key => "KEY".toList
  | interpolation => "INTERPOLATION".toList

/-- The kind that a keyword names; any other word is interpolated. -/
def ofKeyword (word : Text) : Kind :=
  (all.find? fun kind => kind.keyword == word).getD interpolation

def ofName? (name : Text) : Option Kind := all.find? fun kind => kind.name == name

/-- The first kind whose keyword stands at the front of the text, and what follows the keyword. -/
def dropKeyword (s : Text) : Kind × Text :=
  (all.findSome? fun kind => (Text.dropFront? kind.keyword s).map fun rest => (kind, rest)).getD
    (interpolation, s)

@[simp] theorem ofKeyword_keyword (kind : Kind) : ofKeyword kind.keyword = kind := by
  cases kind <;> decide

@[simp] theorem ofName?_name (kind : Kind) : ofName? kind.name = some kind := by
  cases kind <;> decide

end Kind

structure Directive where
  kind : Kind
  expression : Text
deriving DecidableEq, Repr

namespace Directive

/-- Reads what stands between the braces of a tag. -/
def ofInner (inner : Text) : Directive :=
  let (kind, rest) := Kind.dropKeyword (Text.trimLeft inner)
  ⟨kind, Text.trim rest⟩

end Directive

end Stencil
