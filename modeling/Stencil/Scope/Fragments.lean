import Stencil.Text.Basic

/-!
# Fragments

The code of a template in the making, one fragment for each segment. The code is the fragments one
after another, with nothing between them.
-/

namespace Stencil

/-- The fragments of code so far, in order. -/
abbrev Fragments := List Text

namespace Fragments

def add (fs : Fragments) (fragment : Text) : Fragments := fs ++ [fragment]

def code (fs : Fragments) : Text := List.flatten fs

@[simp] theorem code_nil : code [] = [] := rfl

@[simp] theorem code_add (fs : Fragments) (fragment : Text) :
    code (fs.add fragment) = fs.code ++ fragment := by
  simp [code, add]

end Fragments

end Stencil
