/-!
# Texts

A text is a list of code points, so that a length counts characters and a position is the length
of what stands before it. Texts are cut by recursion on the list: `cutAfter?` finds the end of a
delimited stretch, and its length law is what lets the readers built on it terminate.
-/

namespace Stencil

/-- A sequence of code points. -/
abbrev Text := List Char

namespace Text

def occurs (piece : Text) : Text → Bool
  | [] => piece.isEmpty
  | c :: r => piece.isPrefixOf (c :: r) || occurs piece r

/-- Whether the text comes after another in the order of code points, or is the same. -/
def atLeast : Text → Text → Bool
  | _, [] => true
  | [], _ :: _ => false
  | c :: s, d :: t => if c = d then atLeast s t else d.toNat < c.toNat

/-- What stands before and after the first occurrence of a character. -/
def cutAfter? (mark : Char) : Text → Option (Text × Text)
  | [] => none
  | c :: r => if c = mark then some ([], r) else (cutAfter? mark r).map fun p => (c :: p.1, p.2)

theorem eq_of_cutAfter? {mark : Char} {s before after : Text}
    (h : cutAfter? mark s = some (before, after)) : s = before ++ mark :: after := by
  induction s generalizing before with
  | nil => simp [cutAfter?] at h
  | cons c r ih =>
    simp only [cutAfter?] at h
    split at h
    · next hc =>
      obtain ⟨rfl, rfl⟩ := Prod.mk.inj (Option.some.inj h)
      simp [hc]
    · obtain ⟨p, hp, heq⟩ := Option.map_eq_some_iff.1 h
      obtain ⟨rfl, rfl⟩ := Prod.mk.inj heq
      simp [ih hp]

theorem not_mem_of_cutAfter? {mark : Char} {s before after : Text}
    (h : cutAfter? mark s = some (before, after)) : mark ∉ before := by
  induction s generalizing before with
  | nil => simp [cutAfter?] at h
  | cons c r ih =>
    simp only [cutAfter?] at h
    split at h
    · obtain ⟨rfl, rfl⟩ := Prod.mk.inj (Option.some.inj h)
      simp
    · next hc =>
      obtain ⟨p, hp, heq⟩ := Option.map_eq_some_iff.1 h
      obtain ⟨rfl, rfl⟩ := Prod.mk.inj heq
      have hne : mark ≠ c := fun e => hc e.symm
      simp [hne, ih hp]

theorem cutAfter?_append {mark : Char} {front : Text} (h : mark ∉ front) (r : Text) :
    cutAfter? mark (front ++ mark :: r) = some (front, r) := by
  induction front with
  | nil => simp [cutAfter?]
  | cons c front ih =>
    obtain ⟨hc, hfront⟩ := not_or.1 (mt List.mem_cons.2 h)
    rw [List.cons_append, cutAfter?, if_neg (Ne.symm hc), ih hfront]
    rfl

theorem length_lt_of_cutAfter? {mark : Char} {s before after : Text}
    (h : cutAfter? mark s = some (before, after)) : after.length < s.length := by
  rw [eq_of_cutAfter? h]
  simp
  omega

/-- What follows a front, if the text begins with it. -/
def dropFront? : Text → Text → Option Text
  | [], s => some s
  | _ :: _, [] => none
  | c :: front, d :: s => if c = d then dropFront? front s else none

theorem dropFront?_eq_some_iff {front s rest : Text} :
    dropFront? front s = some rest ↔ s = front ++ rest := by
  induction front generalizing s with
  | nil => simp [dropFront?]
  | cons c front ih =>
    cases s with
    | nil => simp [dropFront?]
    | cons d s =>
      by_cases h : c = d
      · subst h
        simp [dropFront?, ih]
      · have hne : d ≠ c := fun e => h e.symm
        simp [dropFront?, h, hne]

@[simp] theorem dropFront?_append (front rest : Text) :
    dropFront? front (front ++ rest) = some rest :=
  dropFront?_eq_some_iff.2 rfl

end Text

end Stencil
