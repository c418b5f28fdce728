import Stencil.Text.Basic

/-!
# Letter case

Names of markup are words of ASCII letters, and a text is compared with them without regard to
case. Only two characters outside ASCII have an ASCII letter as their lower case: the Kelvin sign,
and, one character for one, the capital I with a dot.
-/

namespace Stencil.Text

/-- The ASCII small letter that is a character's lower case, or the character itself. -/
def lowerChar (c : Char) : Char :=
  if c = '\u212A' then 'k'
  else if 'A' ≤ c ∧ c ≤ 'Z' then Char.ofNat (c.toNat + 32)
  else c

def lower (s : Text) : Text := s.map lowerChar

/-- As `lowerChar`, one character for one: the capital I with a dot is lowered to a plain i. -/
def lowerSingle (c : Char) : Char := if c = '\u0130' then 'i' else lowerChar c

/-- Whether two texts agree character by character once each is lowered. -/
def sameLetters (s t : Text) : Bool := s.map lowerSingle == t.map lowerSingle

/-- Whether a character stands for a small ASCII letter in some case: the long s counts as an s, the
capital I with a dot and the small i without one count as an i. -/
def isCaseOf (letter c : Char) : Bool :=
  lowerSingle c == letter || (letter == 's' && c == '\u017F') || (letter == 'i' && c == '\u0131')

/-- Splits off the front of a text that writes the small-letter word in any case. -/
def dropWord? : Text → Text → Option (Text × Text)
  | [], s => some ([], s)
  | letter :: word, c :: s =>
    if isCaseOf letter c then (dropWord? word s).map fun p => (c :: p.1, p.2) else none
  | _ :: _, [] => none

theorem append_of_dropWord? {word s front rest : Text} (h : dropWord? word s = some (front, rest)) :
    s = front ++ rest ∧ front.length = word.length := by
  induction word generalizing s front with
  | nil =>
    obtain ⟨rfl, rfl⟩ := Prod.mk.inj (Option.some.inj h)
    simp
  | cons letter word ih =>
    cases s with
    | nil => simp [dropWord?] at h
    | cons c s =>
      simp only [dropWord?] at h
      split at h
      · obtain ⟨p, hp, heq⟩ := Option.map_eq_some_iff.1 h
        obtain ⟨rfl, rfl⟩ := Prod.mk.inj heq
        obtain ⟨hs, hl⟩ := ih hp
        exact ⟨by rw [hs]; rfl, by simp [hl]⟩
      · simp at h

end Stencil.Text
