import Stencil.Text.Digit

/-!
# Settings

The names that generated code uses, how block scopes are checked, how much is logged, and the form
of the placeholders that stand in for protected text. Names are only useful if they cannot capture
one another, and placeholders only if markup keeps them as they are, so `fault?` says which
settings are refused.
-/

namespace Stencil

structure Settings where
  /-- The stem of the model identifiers. -/
  modelName : Text := "m".toList
  keyName : Text := "k".toList
  /-- The object whose members are the partial templates. -/
  partialName : Text := "p".toList
  /-- The function that maps a collection to an array of strings. -/
  mapMethod : Text := "_.map".toList
  /-- Whether unbalanced blocks are an error. -/
  strictScopes : Bool := false
  /-- The highest level at which remarks are shown. -/
  verbosity : Int := 1
  placeholderPrefix : Text := "templatize-".toList
  placeholderSuffix : Text := "-ph".toList
deriving DecidableEq, Repr

namespace Settings

/-- Why settings are refused as a whole. -/
inductive Fault where
  /-- The partial namespace has the name of a scope's stem. -/
  | partialCollides (name : Text)
  | stemsCoincide
  | placeholderPrefix
  | placeholderSuffix
deriving DecidableEq, Repr

def Fault.message : Fault → Text
  | partialCollides name =>
    "partial_name '".toList ++ name ++ "' collides with a scope identifier prefix".toList
  | stemsCoincide => "model_name and key_name must differ".toList
  | placeholderPrefix => "placeholder_prefix must be a lowercase attribute name".toList
  | placeholderSuffix =>
    "placeholder_suffix must be non-empty lowercase attribute name characters".toList

def isSmallLetter (c : Char) : Bool := 'a' ≤ c && c ≤ 'z'

/-- A small ASCII letter, an ASCII digit, a hyphen or an underscore. -/
def isNameChar (c : Char) : Bool :=
  isSmallLetter c || ('0' ≤ c && c ≤ '9') || c == '_' || c == '-'

def isPlaceholderPrefix : Text → Bool
  | [] => false
  | c :: r => isSmallLetter c && r.all isNameChar

def isPlaceholderSuffix (s : Text) : Bool := !s.isEmpty && s.all isNameChar

def fault? (s : Settings) : Option Fault :=
  if s.partialName = s.modelName ∨ s.partialName = s.keyName then
    some (.partialCollides s.partialName)
  else if s.modelName = s.keyName then some .stemsCoincide
  else if !isPlaceholderPrefix s.placeholderPrefix then some .placeholderPrefix
  else if !isPlaceholderSuffix s.placeholderSuffix then some .placeholderSuffix
  else none

def Admitted (s : Settings) : Prop := s.fault? = none

instance (s : Settings) : Decidable s.Admitted := inferInstanceAs (Decidable (_ = _))

def identifier (stem : Text) (depth : Int) : Text := stem ++ Text.ofInt depth

def model (s : Settings) (depth : Nat) : Text := identifier s.modelName depth

def key (s : Settings) (depth : Nat) : Text := identifier s.keyName depth

/-- The settings with the names of the run-time helpers taken from others. -/
def withHelpersOf (s helpers : Settings) : Settings :=
  { s with mapMethod := helpers.mapMethod, partialName := helpers.partialName }

theorem admitted_default : ({} : Settings).Admitted := by decide

/-- What settings have to satisfy, said at once. -/
theorem admitted_iff {s : Settings} :
    s.Admitted ↔ s.partialName ≠ s.modelName ∧ s.partialName ≠ s.keyName ∧ s.modelName ≠ s.keyName ∧
      isPlaceholderPrefix s.placeholderPrefix = true ∧
      isPlaceholderSuffix s.placeholderSuffix = true := by
  simp only [Admitted, fault?]
  split
  · next h => simp only [reduceCtorEq, false_iff]; rintro ⟨h1, h2, _⟩; exact h.elim h1 h2
  · next h =>
    obtain ⟨h1, h2⟩ := not_or.1 h
    split
    · next h3 => simp [h3]
    · next h3 =>
      cases hp : isPlaceholderPrefix s.placeholderPrefix <;>
        cases hs : isPlaceholderSuffix s.placeholderSuffix <;> simp [h1, h2, h3]

end Settings

end Stencil
