import Stencil.Proofs.Completion

/-!
# Literal text as a string literal

The code of a template without tags is one string literal in single quotes. `readString` reads such
a literal by the rules of the language in which the code is written, with every escape sequence, and
gives code units. Escaping knows of quotes and line breaks only: a template comes back as the value
of its literal exactly if it has no backslash. A backslash begins an escape sequence together with
what follows it, so that the value is another text, or the literal ends somewhere else.
-/

namespace Stencil.Script

/-! ### String literals -/

def codeUnits (n : Nat) : List Nat :=
  if n < 0x10000 then [n] else [0xD800 + (n - 0x10000) / 0x400, 0xDC00 + (n - 0x10000) % 0x400]

def utf16 (s : Text) : List Nat := s.flatMap fun c => codeUnits c.toNat

def digit? (base : Nat) (c : Char) : Option Nat :=
  let n :=
    if '0' ≤ c ∧ c ≤ '9' then c.toNat - '0'.toNat
    else if 'a' ≤ c ∧ c ≤ 'f' then c.toNat - 'a'.toNat + 10
    else if 'A' ≤ c ∧ c ≤ 'F' then c.toNat - 'A'.toNat + 10
    else base
  if n < base then some n else none

/-- The digits with which a text begins, up to a width. -/
def digits (base width : Nat) (s : Text) : Text :=
  (s.take width).takeWhile fun c => (digit? base c).isSome

def number (base : Nat) (ds : Text) : Nat :=
  ds.foldl (fun n c => base * n + (digit? base c).getD 0) 0

/-- What a letter after a backslash stands for, if not for itself. -/
def control? : Char → Option Nat
  | 'b' => some 0x08
  | 't' => some 0x09
  | 'n' => some 0x0A
  | 'v' => some 0x0B
  | 'f' => some 0x0C
  | 'r' => some 0x0D
  | _ => none

def isLineTerminator (c : Char) : Bool :=
  c = '\n' || c = '\r' || c.toNat = 0x2028 || c.toNat = 0x2029

/-- The code unit that so many hexadecimal digits write, and the rest. -/
def hexadecimal? (width : Nat) (s : Text) : Option (List Nat × Text) :=
  let ds := digits 16 width s
  if ds.length = width then some ([number 16 ds], s.drop ds.length) else none

/-- The code point that hexadecimal digits before a closing brace write, and the rest. -/
def codePoint? (s : Text) : Option (List Nat × Text) :=
  let ds := digits 16 s.length s
  match s.drop ds.length with
  | '}' :: rest =>
    if ds ≠ [] ∧ number 16 ds ≤ 0x10FFFF then some (codeUnits (number 16 ds), rest) else none
  | _ => none

/-- The code units of what follows a backslash, and the rest. -/
def escapeSequence? : Text → Option (List Nat × Text)
  | [] => none
  | 'x' :: r => hexadecimal? 2 r
  | 'u' :: '{' :: r => codePoint? r
  | 'u' :: r => hexadecimal? 4 r
  | '\r' :: '\n' :: r => some ([], r)
  | c :: r =>
    if isLineTerminator c then some ([], r)
    else if (digit? 8 c).isSome then
      let ds := digits 8 (if c ≤ '3' then 3 else 2) (c :: r)
      some ([number 8 ds], (c :: r).drop ds.length)
    else
      match control? c with
      | some n => some ([n], r)
      | none => some (codeUnits c.toNat, r)

/-- A character that means itself in a string literal. -/
def IsVerbatim (c : Char) : Prop := c ≠ '\\' ∧ c ≠ '\x27' ∧ Text.IsOrdinary c

instance (c : Char) : Decidable (IsVerbatim c) := inferInstanceAs (Decidable (_ ∧ _ ∧ _))

private theorem isVerbatim_of_digit? {base : Nat} {c : Char} (h : (digit? base c).isSome = true) :
    IsVerbatim c := by
  refine ⟨?_, ?_, ?_, ?_⟩
  all_goals
    rintro rfl
    revert h
    simp [digit?]

/-! ### What escape sequences take -/

@[simp] theorem utf16_nil : utf16 [] = [] := rfl

theorem utf16_cons (c : Char) (s : Text) : utf16 (c :: s) = codeUnits c.toNat ++ utf16 s := by
  rw [utf16, List.flatMap_cons]
  rfl

@[simp] theorem utf16_append (s t : Text) : utf16 (s ++ t) = utf16 s ++ utf16 t :=
  List.flatMap_append

theorem length_codeUnits_pos (n : Nat) : 0 < (codeUnits n).length := by
  rw [codeUnits]
  split <;> simp

theorem length_codeUnits_le (n : Nat) : (codeUnits n).length ≤ 2 := by
  rw [codeUnits]
  split <;> simp

theorem length_le_length_utf16 (s : Text) : s.length ≤ (utf16 s).length := by
  induction s with
  | nil => simp
  | cons c s ih =>
      have := length_codeUnits_pos c.toNat
      rw [utf16_cons, List.length_append, List.length_cons]
      omega

private theorem digits_isPrefix (base width : Nat) (s : Text) : digits base width s <+: s :=
  (List.takeWhile_prefix _).trans (List.take_prefix _ _)

theorem eq_digits_append (base width : Nat) (s : Text) :
    s = digits base width s ++ s.drop (digits base width s).length :=
  List.prefix_append_drop (digits_isPrefix base width s)

theorem isVerbatim_of_mem_digits {base width : Nat} {s : Text} :
    ∀ c ∈ digits base width s, IsVerbatim c := by
  intro c hc
  have hdigit := List.mem_takeWhile_imp (p := fun c => (digit? base c).isSome) hc
  exact isVerbatim_of_digit? hdigit

/-- What is read takes some characters, and its value is no longer than they are. -/
structure Takes (s taken : Text) (v : List Nat) (rest : Text) : Prop where
  eq_append : s = taken ++ rest
  ne_nil : taken ≠ []
  length_le : v.length ≤ (utf16 taken).length

theorem Takes.cons {s taken rest : Text} {v : List Nat} (h : Takes s taken v rest) (c : Char) :
    Takes (c :: s) (c :: taken) v rest := by
  refine ⟨by rw [h.eq_append]; rfl, by simp, h.length_le.trans ?_⟩
  rw [utf16_cons, List.length_append]
  omega

private theorem takes_single {c : Char} {r : Text} {v : List Nat}
    (h : v.length ≤ (codeUnits c.toNat).length) : Takes (c :: r) [c] v r :=
  ⟨rfl, by simp, by rwa [utf16_cons, utf16_nil, List.append_nil]⟩

private theorem digits_ne_nil {base width : Nat} {c : Char} (hwidth : width ≠ 0)
    (hc : (digit? base c).isSome = true) (r : Text) : digits base width (c :: r) ≠ [] := by
  obtain ⟨k, rfl⟩ := Nat.exists_eq_succ_of_ne_zero hwidth
  simp [digits, hc]

theorem takes_digits {base width : Nat} {s : Text} {n : Nat} (h : digits base width s ≠ []) :
    Takes s (digits base width s) [n] (s.drop (digits base width s).length) :=
  ⟨eq_digits_append _ _ _, h, (List.length_pos_iff.2 h).trans_le (length_le_length_utf16 _)⟩

private theorem exists_of_hexadecimal? {width : Nat} {s rest : Text} {v : List Nat}
    (hwidth : width ≠ 0) (h : hexadecimal? width s = some (v, rest)) :
    ∃ taken, Takes s taken v rest ∧ ∀ c ∈ taken, IsVerbatim c := by
  rw [hexadecimal?] at h
  split at h
  · next hlen =>
      obtain ⟨rfl, rfl⟩ := Prod.mk.inj (Option.some.inj h)
      have hne : digits 16 width s ≠ [] := fun hnil => hwidth (by rw [← hlen, hnil]; rfl)
      exact ⟨_, takes_digits hne, isVerbatim_of_mem_digits⟩
  · cases h

private theorem exists_of_codePoint? {s rest : Text} {v : List Nat}
    (h : codePoint? s = some (v, rest)) :
    ∃ taken, Takes ('{' :: s) taken v rest ∧ ∀ c ∈ taken, IsVerbatim c := by
  rw [codePoint?] at h
  split at h
  · next hdrop =>
      split at h
      · obtain ⟨rfl, rfl⟩ := Prod.mk.inj (Option.some.inj h)
        have hs := eq_digits_append 16 s.length s
        rw [hdrop] at hs
        refine ⟨'{' :: digits 16 s.length s ++ ['}'], ⟨by simpa using hs, by simp, ?_⟩, ?_⟩
        · refine (length_codeUnits_le _).trans (le_trans ?_ (length_le_length_utf16 _))
          simp
        · intro c hc
          rw [List.cons_append, List.mem_cons, List.mem_append, List.mem_singleton] at hc
          rcases hc with rfl | hc | rfl
          · decide
          · exact isVerbatim_of_mem_digits c hc
          · decide
      · cases h
  · cases h

theorem exists_of_escapeSequence? {s rest : Text} {v : List Nat}
    (h : escapeSequence? s = some (v, rest)) :
    ∃ taken, Takes s taken v rest ∧
      ((∀ c ∈ s.head?, IsVerbatim c) → ∀ c ∈ taken, IsVerbatim c) := by
  have hcons : ∀ {c s}, IsVerbatim c →
      (∃ taken, Takes s taken v rest ∧ ∀ d ∈ taken, IsVerbatim d) →
      ∃ taken, Takes (c :: s) taken v rest ∧
        ((∀ d ∈ (c :: s).head?, IsVerbatim d) → ∀ d ∈ taken, IsVerbatim d) := by
    rintro c s hc ⟨taken, htaken, hverb⟩
    exact ⟨c :: taken, htaken.cons c, fun _ => List.forall_mem_cons.2 ⟨hc, hverb⟩⟩
  have hsingle : ∀ {c r}, v.length ≤ (codeUnits (Char.toNat c)).length → r = rest →
      ∃ taken, Takes (c :: r) taken v rest ∧
        ((∀ d ∈ (c :: r).head?, IsVerbatim d) → ∀ d ∈ taken, IsVerbatim d) := by
    rintro c r hlen rfl
    exact ⟨[c], takes_single hlen, fun hhead => by simpa using hhead⟩
  revert h
  fun_cases escapeSequence? s with
  | case1 => simp
  | case2 r => exact fun h => hcons (by decide) (exists_of_hexadecimal? (by decide) h)
  | case3 r => exact fun h => hcons (by decide) (exists_of_codePoint? h)
  | case4 r => exact fun h => hcons (by decide) (exists_of_hexadecimal? (by decide) h)
  | case5 r =>
      intro h
      obtain ⟨rfl, rfl⟩ := Prod.mk.inj (Option.some.inj h)
      refine ⟨['\r', '\n'], ⟨rfl, by simp, by simp⟩, fun hhead => ?_⟩
      exact absurd (hhead '\r' rfl) (by decide)
  | case6 c r =>
      intro h
      obtain ⟨rfl, rfl⟩ := Prod.mk.inj (Option.some.inj h)
      exact hsingle (by simp) rfl
  | case7 c r _ _ _ _ _ hc =>
      intro h
      obtain ⟨rfl, rfl⟩ := Prod.mk.inj (Option.some.inj h)
      refine ⟨_, takes_digits (digits_ne_nil ?_ hc r), fun _ => isVerbatim_of_mem_digits⟩
      split <;> decide
  | case8 c r =>
      intro h
      obtain ⟨rfl, rfl⟩ := Prod.mk.inj (Option.some.inj h)
      exact hsingle (length_codeUnits_pos _) rfl
  | case9 c r =>
      intro h
      obtain ⟨rfl, rfl⟩ := Prod.mk.inj (Option.some.inj h)
      exact hsingle le_rfl rfl

theorem length_lt_of_escapeSequence? {s rest : Text} {v : List Nat}
    (h : escapeSequence? s = some (v, rest)) : rest.length < s.length := by
  obtain ⟨taken, htaken, -⟩ := exists_of_escapeSequence? h
  have := List.length_pos_iff.2 htaken.ne_nil
  rw [htaken.eq_append, List.length_append]
  omega

/-! ### Reading a literal -/

/-- The code units of a string literal up to the quote that ends it, and what follows the quote. -/
def readString : Text → Option (List Nat × Text)
  | [] => none
  | '\x27' :: r => some ([], r)
  | '\n' :: _ => none
  | '\r' :: _ => none
  | '\\' :: r =>
    match _h : escapeSequence? r with
    | some (v, rest) => (readString rest).map fun p => (v ++ p.1, p.2)
    | none => none
  | c :: r => (readString r).map fun p => (codeUnits c.toNat ++ p.1, p.2)
termination_by s => s.length
decreasing_by
  · have := length_lt_of_escapeSequence? _h
    simp
    omega
  · simp

theorem readString_quote (r : Text) : readString ('\x27' :: r) = some ([], r) := by
  rw [readString]

theorem readString_backslash (r : Text) :
    readString ('\\' :: r) =
      (escapeSequence? r).bind fun p => (readString p.2).map fun q => (p.1 ++ q.1, q.2) := by
  rw [readString]
  split
  · next h => rw [h]; rfl
  · next h => rw [h]; rfl

theorem readString_verbatim {c : Char} (hc : IsVerbatim c) (r : Text) :
    readString (c :: r) = (readString r).map fun p => (codeUnits c.toNat ++ p.1, p.2) := by
  obtain ⟨hback, hquote, hn, hr⟩ := hc
  rw [readString] <;> assumption

theorem length_lt_of_readString {s rest : Text} {v : List Nat}
    (h : readString s = some (v, rest)) : rest.length < s.length := by
  revert h
  fun_induction readString s generalizing v with
  | case1 | case3 | case4 | case6 => simp
  | case2 r =>
      intro h
      obtain ⟨-, rfl⟩ := Prod.mk.inj (Option.some.inj h)
      simp
  | case5 r _ next htaken ih =>
      intro h
      obtain ⟨p, hp, heq⟩ := Option.map_eq_some_iff.1 h
      obtain ⟨-, rfl⟩ := Prod.mk.inj heq
      have hnext := length_lt_of_escapeSequence? htaken
      have hrest := ih hp
      rw [List.length_cons]
      omega
  | case7 c r _ _ _ _ ih =>
      intro h
      obtain ⟨p, hp, heq⟩ := Option.map_eq_some_iff.1 h
      obtain ⟨-, rfl⟩ := Prod.mk.inj heq
      have hrest := ih hp
      rw [List.length_cons]
      omega

private theorem readString_ne_self {s : Text} {v : List Nat} (d : Text) :
    readString s ≠ some (v, d ++ s) := by
  intro h
  have := length_lt_of_readString h
  rw [List.length_append] at this
  omega

end Stencil.Script

namespace Stencil.Text

/-- The text with each line break as one newline. -/
def withNewlines (s : Text) : Text := (units s).map (·.getD '\n')

end Stencil.Text

namespace Stencil.Script

open Text (escapeUnit IsOrdinary)

/-! ### Escaped text between quotes -/

/-- The code units of units of a text, with a newline for each line break. -/
def value (us : List (Option Char)) : List Nat := utf16 (us.map (·.getD '\n'))

theorem value_cons (u : Option Char) (us : List (Option Char)) :
    value (u :: us) = codeUnits (u.getD '\n').toNat ++ value us := by
  rw [value, List.map_cons, utf16_cons]
  rfl

private theorem value_map_some_append (s : Text) (us : List (Option Char)) :
    value (s.map some ++ us) = utf16 s ++ value us := by
  simp [value, Function.comp_def]

theorem readString_escapeUnit {u : Option Char} (hu : ∀ c ∈ u, c ≠ '\\' ∧ IsOrdinary c) (r : Text) :
    readString (escapeUnit u ++ r) =
      (readString r).map fun p => (codeUnits (u.getD '\n').toNat ++ p.1, p.2) := by
  match u with
  | none => exact readString_backslash ('n' :: r)
  | some c =>
      obtain ⟨hback, hord⟩ := hu c rfl
      by_cases hquote : c = '\x27'
      · subst hquote
        exact readString_backslash ('\x27' :: r)
      · rw [escapeUnit, if_neg hquote]
        exact readString_verbatim ⟨hback, hquote, hord⟩ r

/-- Units without a backslash are the value of the literal that they are written as. -/
theorem readString_flatMap_escapeUnit {us : List (Option Char)}
    (hus : ∀ c, some c ∈ us → c ≠ '\\' ∧ IsOrdinary c) (t : Text) :
    readString (us.flatMap escapeUnit ++ '\x27' :: t)
      = some (value us, t) := by
  induction us with
  | nil => exact readString_quote t
  | cons u us ih =>
      have hu : ∀ c ∈ u, c ≠ '\\' ∧ IsOrdinary c := by
        rintro c rfl
        exact hus c List.mem_cons_self
      rw [List.flatMap_cons, List.append_assoc, readString_escapeUnit hu,
        ih fun c hc => hus c (List.mem_cons_of_mem _ hc), value_cons]
      rfl

private theorem exists_of_flatMap_escapeUnit_eq {us : List (Option Char)} {t d rest : Text}
    (hd : ∀ c ∈ d, IsVerbatim c) (h : us.flatMap escapeUnit ++ '\x27' :: t = d ++ rest) :
    ∃ next, us = d.map some ++ next ∧ rest = next.flatMap escapeUnit ++ '\x27' :: t := by
  induction d generalizing us with
  | nil => exact ⟨us, rfl, h.symm⟩
  | cons c d ih =>
      obtain ⟨hc, hrest⟩ := List.forall_mem_cons.1 hd
      match us with
      | [] => exact absurd (List.cons.inj h).1.symm hc.2.1
      | none :: us => exact absurd (List.cons.inj h).1.symm hc.1
      | some e :: us =>
          rw [List.flatMap_cons, escapeUnit, List.append_assoc] at h
          split at h
          · exact absurd (List.cons.inj h).1.symm hc.1
          · obtain ⟨rfl, htail⟩ := List.cons.inj h
            obtain ⟨next, rfl, hnext⟩ := ih hrest htail
            exact ⟨next, rfl, hnext⟩

theorem readString_two_backslashes (r : Text) :
    readString ('\\' :: '\\' :: r) = (readString r).map fun q => (0x5C :: q.1, q.2) :=
  readString_backslash ('\\' :: r)

theorem some_of_map_eq {α : Type} {o : Option (α × Text)} {f : α → α} {v : α} {t : Text}
    (h : (o.map fun q => (f q.1, q.2)) = some (v, t)) : ∃ w, o = some (w, t) ∧ f w = v := by
  obtain ⟨⟨w, rest⟩, hq, heq⟩ := Option.map_eq_some_iff.1 h
  obtain ⟨rfl, rfl⟩ := Prod.mk.inj heq
  exact ⟨w, hq, rfl⟩

/-- After a backslash the literal goes on with a line break that has become a backslash and an n, or
it has taken units of a greater value than those that it gives. -/
theorem cases_of_readString_backslash {us : List (Option Char)} {t : Text} {v : List Nat}
    (hus : ∀ c, some c ∈ us → IsOrdinary c)
    (h : readString ('\\' :: (us.flatMap escapeUnit ++ '\x27' :: t)) = some (v, t)) :
    ∃ next w, next <:+ us ∧ readString (next.flatMap escapeUnit ++ '\x27' :: t) = some (w, t) ∧
      ((us = none :: next ∧ v = 0x5C :: 'n'.toNat :: w) ∨
        v.length + (value next).length ≤ w.length + (value us).length) := by
  match us with
  | [] =>
      have hread : readString ('\\' :: ([].flatMap escapeUnit ++ '\x27' :: t))
          = (readString t).map fun q => (0x27 :: q.1, q.2) := readString_backslash ('\x27' :: t)
      rw [hread] at h
      obtain ⟨w, hw, -⟩ := some_of_map_eq h
      exact absurd hw (readString_ne_self [])
  | none :: us =>
      change readString ('\\' :: '\\' :: 'n' :: (us.flatMap escapeUnit ++ '\x27' :: t)) = _ at h
      rw [readString_two_backslashes, readString_verbatim (by decide)] at h
      obtain ⟨w, hw, rfl⟩ := some_of_map_eq h
      obtain ⟨x, hx, rfl⟩ := some_of_map_eq hw
      exact ⟨us, x, List.suffix_cons _ _, hx, .inl ⟨rfl, rfl⟩⟩
  | some c :: us =>
      rw [List.flatMap_cons, List.append_assoc] at h
      by_cases hquote : c = '\x27'
      · -- The backslash that escapes the quote is itself taken by the one before it.
        subst hquote
        change readString
          ('\\' :: '\\' :: '\x27' :: (us.flatMap escapeUnit ++ '\x27' :: t)) = _ at h
        rw [readString_two_backslashes, readString_quote] at h
        obtain ⟨w, hw, -⟩ := some_of_map_eq h
        have hlen := congrArg List.length (Prod.mk.inj (Option.some.inj hw)).2
        simp at hlen
        omega
      rw [escapeUnit, if_neg hquote] at h
      by_cases hback : c = '\\'
      · subst hback
        change readString ('\\' :: '\\' :: (us.flatMap escapeUnit ++ '\x27' :: t)) = _ at h
        rw [readString_two_backslashes] at h
        obtain ⟨w, hw, rfl⟩ := some_of_map_eq h
        refine ⟨us, w, List.suffix_cons _ _, hw, .inr ?_⟩
        have := length_codeUnits_pos ('\\'.toNat)
        rw [value_cons, List.length_append, List.length_cons, Option.getD_some]
        omega
      · rw [readString_backslash] at h
        obtain ⟨⟨front, rest⟩, htaken, h⟩ := Option.bind_eq_some_iff.1 h
        obtain ⟨w, hw, rfl⟩ := some_of_map_eq h
        obtain ⟨taken, htakes, hverb⟩ := exists_of_escapeSequence? htaken
        have hc : IsVerbatim c := ⟨hback, hquote, hus c List.mem_cons_self⟩
        have htext : (some c :: us).flatMap escapeUnit ++ '\x27' :: t = taken ++ rest := by
          rw [List.flatMap_cons, List.append_assoc, escapeUnit, if_neg hquote]
          exact htakes.eq_append
        obtain ⟨next, hnext, rfl⟩ :=
          exists_of_flatMap_escapeUnit_eq (hverb fun d hd => Option.some.inj hd ▸ hc) htext
        refine ⟨next, w, ⟨_, hnext.symm⟩, hw, .inr ?_⟩
        have := htakes.length_le
        rw [hnext, value_map_some_append, List.length_append, List.length_append]
        dsimp only
        omega

theorem of_ne_backslash {u : Option Char} {us : List (Option Char)}
    (hus : ∀ c, some c ∈ u :: us → IsOrdinary c) (hback : u ≠ some '\\') :
    ∀ c ∈ u, c ≠ '\\' ∧ IsOrdinary c := by
  rintro c rfl
  exact ⟨fun he => hback (by rw [he]), hus c List.mem_cons_self⟩

/-- The value of a literal is no longer than the units that it is written from. -/
theorem length_le_of_readString {us : List (Option Char)} {t : Text} {v : List Nat}
    (hus : ∀ c, some c ∈ us → IsOrdinary c)
    (h : readString (us.flatMap escapeUnit ++ '\x27' :: t) = some (v, t)) :
    v.length ≤ (value us).length := by
  -- Not on the list itself, since one escape sequence may take many units.
  induction hn : us.length using Nat.strongRecOn generalizing us v with
  | _ n ih =>
      subst hn
      match us with
      | [] =>
          rw [List.flatMap_nil, List.nil_append, readString_quote] at h
          obtain ⟨rfl, -⟩ := Prod.mk.inj (Option.some.inj h)
          simp
      | u :: us =>
          have htail : ∀ c, some c ∈ us → IsOrdinary c :=
            fun c hc => hus c (List.mem_cons_of_mem _ hc)
          rw [List.flatMap_cons, List.append_assoc] at h
          by_cases hback : u = some '\\'
          · subst hback
            obtain ⟨next, w, hnext, hw, ⟨rfl, rfl⟩ | hlen⟩ := cases_of_readString_backslash htail h
            · have := ih next.length (by simp only [List.length_cons]; omega)
                (fun c hc => htail c (by simp [hc])) hw rfl
              simpa [value_cons, codeUnits] using this
            · have hle := hnext.length_le
              have := ih next.length (by rw [List.length_cons]; omega)
                (fun c hc => htail c (hnext.subset hc)) hw rfl
              rw [value_cons, List.length_append]
              omega
          · rw [readString_escapeUnit (of_ne_backslash hus hback)] at h
            obtain ⟨w, hw, rfl⟩ := some_of_map_eq h
            have := ih us.length (by simp) htail hw rfl
            rw [value_cons, List.length_append, List.length_append]
            omega

/-- Units are the value of the literal that they are written as exactly if none is a backslash. -/
theorem readString_eq_value_iff {us : List (Option Char)} (hus : ∀ c, some c ∈ us → IsOrdinary c)
    (t : Text) :
    readString (us.flatMap escapeUnit ++ '\x27' :: t) = some (value us, t) ↔ some '\\' ∉ us := by
  constructor
  · intro h
    induction us with
    | nil => simp
    | cons u us ih =>
        have htail : ∀ c, some c ∈ us → IsOrdinary c :=
          fun c hc => hus c (List.mem_cons_of_mem _ hc)
        rw [List.flatMap_cons, List.append_assoc] at h
        by_cases hback : u = some '\\'
        · subst hback
          obtain ⟨next, w, hnext, hw, ⟨rfl, hv⟩ | hlen⟩ := cases_of_readString_backslash htail h
          · -- The value has the letter n where the template has a line break.
            cases hv
          · have := length_le_of_readString (fun c hc => htail c (hnext.subset hc)) hw
            have := length_codeUnits_pos ('\\'.toNat)
            rw [value_cons, List.length_append, Option.getD_some] at hlen
            omega
        · rw [readString_escapeUnit (of_ne_backslash hus hback), value_cons] at h
          obtain ⟨w, hw, heq⟩ := some_of_map_eq h
          obtain rfl := List.append_cancel_left heq
          rw [List.mem_cons, not_or]
          exact ⟨fun he => hback he.symm, ih htail hw⟩
  · intro h
    refine readString_flatMap_escapeUnit (fun c hc => ⟨?_, hus c hc⟩) t
    rintro rfl
    exact h hc

end Stencil.Script

namespace Stencil.Compiler

open Script

/-! ### Templates without tags -/

/-- A template without tags is the value of the string literal that it is compiled to, and the
literal ends where the body of the function does, exactly if the template has no backslash. -/
theorem readString_body_iff (minifier : Minifier) {source : Text} (h : ¬Piece.HasTag source) :
    ∃ body, (({ minifier } : Compiler).compile source).result
        = .ok (({} : Settings).functionOpening ++ body ++ functionClosing) ∧
      (readString (body ++ functionClosing)
          = some (utf16 (Text.withNewlines (Text.trim source)), ";\x7d".toList) ↔
        '\\' ∉ source) := by
  refine ⟨Text.escape (Text.trim source), result_compile_of_not_hasTag rfl h, ?_⟩
  have hunits := readString_eq_value_iff
    (fun c (hc : some c ∈ Text.units (Text.trim source)) => (Text.of_some_mem_units hc).2)
    ";\x7d".toList
  refine hunits.trans (not_congr ?_)
  rw [← Text.mem_trim_iff (c := '\\') (by decide)]
  exact ⟨fun hmem => (Text.of_some_mem_units hmem).1, Text.some_mem_units (by decide)⟩

theorem readString_body_of_two_lines :
    ¬Piece.HasTag " it's\r\nfine".toList ∧
      ∃ body, (({ minifier := .keep } : Compiler).compile " it's\r\nfine".toList).result
          = .ok (({} : Settings).functionOpening ++ body ++ functionClosing) ∧
        readString (body ++ functionClosing)
          = some (utf16 "it's\nfine".toList, ";\x7d".toList) := by
  have htag : ¬Piece.HasTag " it's\r\nfine".toList := Piece.not_hasTag_of_not_mem (by decide)
  obtain ⟨body, hbody, hread⟩ := readString_body_iff .keep htag
  have hvalue : Text.withNewlines (Text.trim " it's\r\nfine".toList) = "it's\nfine".toList := by
    decide
  refine ⟨htag, body, hbody, ?_⟩
  rw [← hvalue]
  exact hread.2 (by decide)

/-- A backslash before a quote is taken for the escape of a backslash, and the quote ends the
literal. -/
theorem readString_body_backslash_quote :
    ¬Piece.HasTag "\\'".toList ∧
      (({ minifier := .keep } : Compiler).compile "\\'".toList).result
        = .ok (({} : Settings).functionOpening ++ "\\\\'".toList ++ functionClosing) ∧
      readString ("\\\\'".toList ++ functionClosing) = some ([0x5C], "';\x7d".toList) ∧
      readString ("\\\\'".toList ++ functionClosing)
        ≠ some (utf16 (Text.withNewlines (Text.trim "\\'".toList)), ";\x7d".toList) := by
  have htag : ¬Piece.HasTag "\\'".toList := Piece.not_hasTag_of_not_mem (by decide)
  have hread : readString ("\\\\'".toList ++ functionClosing) = some ([0x5C], "';\x7d".toList) := by
    change readString ('\\' :: '\\' :: '\x27' :: "';\x7d".toList) = _
    rw [readString_two_backslashes, readString_quote]
    rfl
  refine ⟨htag, result_compile_of_not_hasTag rfl htag, hread, ?_⟩
  rw [hread]
  decide

end Stencil.Compiler
