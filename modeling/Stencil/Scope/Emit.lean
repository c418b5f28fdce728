import Stencil.Scope.Fragments
import Stencil.Scope.Reference
import Stencil.Template.Segment

/-!
# The code of directives

The body of the generated function is an expression of string literals in single quotes, and
literal text of the template stands inside them. The fragment of a directive therefore ends the
literal before it, adds its code, and begins the next literal. Blocks are opened and closed by
separate fragments, and the tracker supplies the names that are visible between them.
-/

namespace Stencil

open Tracker

/-- The code that writes an attribute if an expression equals the value of the current model. -/
def Settings.attributeIf (s : Settings) (depth : Nat) (expression : Text) (word : String) :
    Text :=
  "'+((".toList ++ s.reference depth expression ++ "==".toList
    ++ s.reference depth "value".toList ++ ")?'".toList ++ word.toList ++ "':'')+'".toList

/-- The fragment of a directive, and what it does to the tracker. -/
def Directive.fragment (s : Settings) (d : Directive) (position : Option Int) (t : Tracker) :
    Step Text :=
  match d.kind with
  | .each =>
    (enter s t).map fun model =>
      "'+".toList ++ s.mapMethod ++ '(' :: s.reference t.depth d.expression
        ++ ", function(".toList ++ model ++ ',' :: s.key (t.depth + 1)
        ++ ") \x7b return '".toList
  | .eachEnd => (exit s position t).map fun _ => "';\x7d).join('')+'".toList
  | .hide =>
    (hideOpen t).map fun _ =>
      "'+(!(".toList ++ s.reference t.depth d.expression ++ ")?('".toList
  | .hideEnd => (hideClose s position t).map fun _ => "'):(''))+'".toList
  | .selectedIf => ⟨.ok (s.attributeIf t.depth d.expression "selected"), t, []⟩
  | .checkedIf => ⟨.ok (s.attributeIf t.depth d.expression "checked"), t, []⟩
  | .partialCall =>
    ⟨.ok ("'+".toList ++ s.partialName ++ '.' :: d.expression ++ '(' :: s.model t.depth
      ++ ")+'".toList), t, []⟩
  | .key => ⟨.ok ("'+".toList ++ s.key t.depth ++ "+'".toList), t, []⟩
  | .interpolation =>
    ⟨.ok ("'+".toList ++ s.reference t.depth d.expression ++ "+'".toList), t, []⟩

def Directive.remark (d : Directive) (fragment : Text) : Log.Entry :=
  .trace 3 (d.kind.name ++ " '".toList ++ d.expression ++ "' -> ".toList ++ fragment)

def Directive.emit (s : Settings) (d : Directive) (position : Option Int) (t : Tracker) :
    Step Text :=
  (d.fragment s position t).andThen fun fragment t =>
    ⟨.ok fragment, t, [⟨d.remark fragment, t⟩]⟩

/-- Emits the fragment of a segment; literal text stays as it is. -/
def Segment.emit (s : Settings) (segment : Segment) (t : Tracker) : Step Text :=
  match segment with
  | .literal text _ => ⟨.ok text, t, []⟩
  | .directive d position _ => d.emit s (some position) t

/-- Emits the fragments of segments in order, up to the first error. -/
def Segment.emitAll (s : Settings) : List Segment → Tracker → Step Fragments
  | [], t => ⟨.ok [], t, []⟩
  | segment :: segments, t =>
    (segment.emit s t).andThen fun fragment t =>
      (emitAll s segments t).map (fragment :: ·)

end Stencil
