import Stencil.Settings.Basic

/-!
# Placeholders

A placeholder stands in for protected text: an opening, the number of the protected text, and a
closing. In a text the digits are taken as far as they go, and then given back one by one until
the closing follows, because a closing may itself begin with digits.

Numbers of more than `maxDigits` digits are not read.
-/

namespace Stencil

/-- The form of the placeholders of one kind. -/
structure Placeholder.Format where
  opening : Text
  closing : Text
deriving DecidableEq, Repr

def Settings.placeholders (s : Settings) (kind : Text) : Placeholder.Format :=
  ⟨s.placeholderPrefix ++ kind ++ ['-'], s.placeholderSuffix⟩

def Settings.tagPlaceholders (s : Settings) : Placeholder.Format := s.placeholders "tag".toList

namespace Placeholder

/-- The most digits of a number that is read. -/
def maxDigits : Nat := 4300

/-- A number is written with more digits than are read. -/
structure TooLong where
  digits : Nat
deriving DecidableEq, Repr

def TooLong.message (e : TooLong) : Text :=
  "Exceeds the limit (".toList ++ Text.ofNat maxDigits
    ++ " digits) for integer string conversion: value has ".toList ++ Text.ofNat e.digits
    ++ " digits; use sys.set_int_max_str_digits() to increase the limit".toList

def readNumber (ds : Text) : Except TooLong Nat :=
  if ds.length ≤ maxDigits then .ok (Text.digitsValue ds) else .error ⟨ds.length⟩

namespace Format

def make (f : Format) (n : Int) : Text := f.opening ++ Text.ofInt n ++ f.closing

/-- The most digits at the front that the closing follows, and what stands after the closing. -/
def number? (closing : Text) : Text → Option (Text × Text)
  | [] => none
  | c :: r =>
    if Text.isDigit c then
      match number? closing r with
      | some (ds, rest) => some (c :: ds, rest)
      | none => (Text.dropFront? closing r).map fun rest => ([c], rest)
    else none

/-- The digits of a placeholder at the front, and what stands after it. -/
def match? (f : Format) (s : Text) : Option (Text × Text) :=
  (Text.dropFront? f.opening s).bind (number? f.closing)

private theorem eq_of_number? {closing s ds rest : Text} (h : number? closing s = some (ds, rest)) :
    s = ds ++ closing ++ rest ∧ ds ≠ [] ∧ ∀ c ∈ ds, Text.isDigit c = true := by
  fun_induction number? closing s generalizing ds rest with
  | case1 => simp at h
  | case2 c r hc ds' rest' hr ih =>
    obtain ⟨rfl, rfl⟩ := Prod.mk.inj (Option.some.inj h)
    obtain ⟨he, _, hd⟩ := ih hr
    refine ⟨by rw [he]; rfl, by simp, ?_⟩
    intro x hx
    rcases List.mem_cons.1 hx with rfl | hx
    · exact hc
    · exact hd x hx
  | case3 c r hc hr ih =>
    obtain ⟨rest', hp, heq⟩ := Option.map_eq_some_iff.1 h
    obtain ⟨rfl, rfl⟩ := Prod.mk.inj heq
    refine ⟨by rw [Text.dropFront?_eq_some_iff.1 hp]; rfl, by simp, ?_⟩
    intro x hx
    rwa [List.mem_singleton.1 hx]
  | case4 c r hc => simp at h

theorem eq_of_match? {f : Format} {s ds rest : Text} (h : f.match? s = some (ds, rest)) :
    s = f.opening ++ (ds ++ f.closing ++ rest) ∧ ds ≠ [] ∧ ∀ c ∈ ds, Text.isDigit c = true := by
  obtain ⟨t, ht, hn⟩ := Option.bind_eq_some_iff.1 h
  obtain ⟨he, hne, hd⟩ := eq_of_number? hn
  exact ⟨by rw [Text.dropFront?_eq_some_iff.1 ht, he], hne, hd⟩

theorem length_lt_of_match? {f : Format} {s ds rest : Text} (h : f.match? s = some (ds, rest)) :
    rest.length < s.length := by
  obtain ⟨he, hne, _⟩ := eq_of_match? h
  have := List.length_pos_iff.2 hne
  rw [he]
  simp
  omega

/-- The digits of a text that is a placeholder and nothing else. -/
def digits? (f : Format) (s : Text) : Option Text :=
  (Text.dropFront? f.opening s).bind fun rest =>
    let ds := rest.take (rest.length - f.closing.length)
    if f.closing.isSuffixOf rest && !ds.isEmpty && ds.all Text.isDigit then some ds else none

/-- The number of a text that is a placeholder and nothing else. -/
def extract (f : Format) (s : Text) : Except TooLong (Option Nat) :=
  match f.digits? s with
  | none => .ok none
  | some ds => (readNumber ds).map some

inductive Part where
  | char (c : Char)
  /-- A placeholder, by its digits. -/
  | hole (digits : Text)
deriving DecidableEq, Repr

/-- Reads a text as characters and placeholders, each placeholder as far to the left as it can
stand. -/
def parts (f : Format) (s : Text) : List Format.Part :=
  match _h : f.match? s with
  | some (ds, rest) => .hole ds :: parts f rest
  | none =>
    match s with
    | [] => []
    | c :: r => .char c :: parts f r
termination_by s.length
decreasing_by
  · exact length_lt_of_match? _h
  · simp

def partText (f : Format) : Format.Part → Text
  | .char c => [c]
  | .hole ds => f.opening ++ ds ++ f.closing

theorem flatMap_partText_parts (f : Format) (s : Text) : (f.parts s).flatMap f.partText = s := by
  fun_induction parts f s with
  | case1 s ds rest h ih =>
    obtain ⟨he, _⟩ := eq_of_match? h
    simp [ih, partText, he]
  | case2 => rfl
  | case3 c r h ih => simp [ih, partText]

/-- A placeholder in a text: its place, its text and its digits. -/
structure Found where
  position : Nat
  text : Text
  digits : Text
deriving DecidableEq, Repr

/-- The placeholders among parts, the first of which stands at the given place. -/
def locate (f : Format) : Nat → List Format.Part → List Found
  | _, [] => []
  | position, .char _ :: ps => locate f (position + 1) ps
  | position, .hole ds :: ps =>
    let text := f.partText (.hole ds)
    ⟨position, text, ds⟩ :: locate f (position + text.length) ps

def find (f : Format) (s : Text) : List Found := f.locate 0 (f.parts s)

end Format

end Placeholder

end Stencil
