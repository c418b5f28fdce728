import Mathlib.Data.List.Infix
import Mathlib.Data.List.TakeWhile
import Stencil.Text.Blank
import Stencil.Text.LineBreak

/-!
# Escaping piece by piece

Escaping works on the units of a text, and a line break of two characters is one unit. A text is
therefore taken apart unit by unit, and a unit is a brace or has no brace, as it stands and escaped.
Tags are marked by braces, so scanning makes its cuts between units.
-/

namespace Stencil.Text

-- Goes over the text, where another instance may go over all characters.
instance (s : Text) (p : Char → Prop) [DecidablePred p] : Decidable (∀ c ∈ s, p c) :=
  List.decidableBAll p s

/-- Neither half of a line break. -/
def IsOrdinary (c : Char) : Prop := c ≠ '\n' ∧ c ≠ '\r'

instance (c : Char) : Decidable (IsOrdinary c) := inferInstanceAs (Decidable (_ ∧ _))

theorem escapeUnit_ne_nil (u : Option Char) : escapeUnit u ≠ [] := by
  match u with
  | none => simp [escapeUnit]
  | some c =>
      rw [escapeUnit]
      split <;> simp

theorem escape_cons {c : Char} (hc : IsOrdinary c) (s : Text) :
    escape (c :: s) = escapeUnit (some c) ++ escape s := by
  rw [escape, units_cons hc.1 hc.2, List.flatMap_cons]
  rfl

theorem escape_cons_self {c : Char} (hc : IsOrdinary c) (hq : c ≠ '\x27') (s : Text) :
    escape (c :: s) = c :: escape s := by
  rw [escape_cons hc, escapeUnit, if_neg hq]
  rfl

theorem escape_append_of_plain {a : Text} (h : ∀ c ∈ a, IsOrdinary c ∧ c ≠ '\x27') (s : Text) :
    escape (a ++ s) = a ++ escape s := by
  induction a with
  | nil => rfl
  | cons c a ih =>
      obtain ⟨⟨hc, hq⟩, ha⟩ := List.forall_mem_cons.1 h
      rw [List.cons_append, escape_cons_self hc hq, ih ha, List.cons_append]

theorem escape_eq_self {s : Text} (h : ∀ c ∈ s, IsOrdinary c ∧ c ≠ '\x27') : escape s = s := by
  have happend := escape_append_of_plain h []
  rwa [List.append_nil, escape_nil, List.append_nil] at happend

/-- A line break does not go on into an ordinary character. -/
theorem units_append {t : Text} (ht : ∀ c ∈ t.head?, IsOrdinary c) (s : Text) :
    units (s ++ t) = units s ++ units t := by
  have hbreak : ∀ r u : Text, ∀ d, ¬IsOrdinary d → (∀ v, r = d :: v → False) → r ++ t ≠ d :: u := by
    intro r u d hd hne heq
    match r with
    | [] => exact hd (ht d (by rw [← List.nil_append t, heq]; rfl))
    | e :: r => exact hne r (by rw [(List.cons.inj heq).1])
  fun_induction units s with
  | case1 r ih | case2 r ih => simp [units, ih]
  | case3 r hne ih =>
      rw [List.cons_append, units, ih, List.cons_append]
      exact fun u => hbreak r u _ (by decide) hne
  | case4 r hne ih =>
      rw [List.cons_append, units, ih, List.cons_append]
      exact fun u => hbreak r u _ (by decide) hne
  | case5 c r h1 h2 h3 h4 ih =>
      rw [List.cons_append, units_cons h3 h4, ih, List.cons_append]
  | case6 => rfl

theorem lineCount_append {t : Text} (ht : ∀ c ∈ t.head?, IsOrdinary c) (s : Text) :
    lineCount (s ++ t) + 1 = lineCount s + lineCount t := by
  rw [lineCount, units_append ht, List.count_append, lineCount, lineCount]
  omega

theorem lineCount_append_of_ordinary {a : Text} (h : ∀ c ∈ a, IsOrdinary c) (s : Text) :
    lineCount (a ++ s) = lineCount s := by
  induction a with
  | nil => rfl
  | cons c a ih =>
      obtain ⟨hc, ha⟩ := List.forall_mem_cons.1 h
      rw [← ih ha, List.cons_append, lineCount, units_cons hc.1 hc.2]
      rfl

theorem escape_append {t : Text} (ht : ∀ c ∈ t.head?, IsOrdinary c) (s : Text) :
    escape (s ++ t) = escape s ++ escape t := by
  rw [escape, units_append ht, List.flatMap_append]
  rfl

theorem of_some_mem_units {c : Char} {s : Text} (h : some c ∈ units s) : c ∈ s ∧ IsOrdinary c := by
  fun_induction units s with
  | case1 r ih | case2 r ih | case3 r hne ih | case4 r hne ih =>
      have hc := ih (by simpa using h)
      exact ⟨by simp [hc.1], hc.2⟩
  | case5 d r h1 h2 h3 h4 ih =>
      rcases List.mem_cons.1 h with heq | htail
      · obtain rfl := Option.some.inj heq
        exact ⟨List.mem_cons_self, h3, h4⟩
      · exact ⟨List.mem_cons_of_mem _ (ih htail).1, (ih htail).2⟩
  | case6 => simp at h

theorem some_mem_units {c : Char} {s : Text} (hc : IsOrdinary c) (h : c ∈ s) :
    some c ∈ units s := by
  fun_induction units s with
  | case1 r ih | case2 r ih | case3 r hne ih | case4 r hne ih =>
      have hmem : c ∈ r := by simpa [hc.1, hc.2] using h
      exact List.mem_cons_of_mem _ (ih hmem)
  | case5 d r h1 h2 h3 h4 ih =>
      rcases List.mem_cons.1 h with rfl | htail
      · exact List.mem_cons_self
      · exact List.mem_cons_of_mem _ (ih htail)
  | case6 => cases h

/-- The first unit of a text, before what follows it. A line break is taken as long as it goes, so
the unit stays the same before any front of what follows. -/
structure IsFirstUnit (u : Option Char) (a r : Text) : Prop where
  ne_nil : a ≠ []
  units_eq : ∀ t, t <+: r → units (a ++ t) = u :: units t

theorem IsFirstUnit.escape_eq {u : Option Char} {a r t : Text} (h : IsFirstUnit u a r)
    (ht : t <+: r) : escape (a ++ t) = escapeUnit u ++ escape t := by
  rw [escape, h.units_eq t ht, List.flatMap_cons]
  rfl

private theorem isFirstUnit_ordinary {c : Char} (hc : IsOrdinary c) (r : Text) :
    IsFirstUnit (some c) [c] r :=
  ⟨by simp, fun t _ => units_cons hc.1 hc.2 t⟩

private theorem isFirstUnit_break {c d : Char} {r : Text}
    (hunits : ∀ t : Text, (∀ u, t = d :: u → False) → units (c :: t) = none :: units t)
    (hne : ∀ u, r = d :: u → False) : IsFirstUnit none [c] r := by
  refine ⟨by simp, fun t ht => hunits t ?_⟩
  rintro u rfl
  obtain ⟨v, rfl⟩ := ht
  exact hne _ rfl

/-- A text is empty or begins with a unit, which is an ordinary character or a line break. -/
theorem eq_nil_or_firstUnit (s : Text) :
    s = [] ∨ ∃ u a r, s = a ++ r ∧ IsFirstUnit u a r ∧
      ((∃ c, u = some c ∧ a = [c] ∧ IsOrdinary c) ∨ u = none ∧ ∀ c ∈ a, ¬IsOrdinary c) := by
  fun_cases units s with
  | case1 r =>
      exact .inr ⟨none, ['\r', '\n'], r, rfl, ⟨by simp, fun t _ => by simp [units]⟩,
        .inr ⟨rfl, by decide⟩⟩
  | case2 r =>
      exact .inr ⟨none, ['\n', '\r'], r, rfl, ⟨by simp, fun t _ => by simp [units]⟩,
        .inr ⟨rfl, by decide⟩⟩
  | case3 r hne =>
      refine .inr ⟨none, ['\n'], r, rfl, isFirstUnit_break ?_ hne, .inr ⟨rfl, by decide⟩⟩
      intro t ht
      rw [units]
      exact ht
  | case4 r hne =>
      refine .inr ⟨none, ['\r'], r, rfl, isFirstUnit_break ?_ hne, .inr ⟨rfl, by decide⟩⟩
      intro t ht
      rw [units]
      exact ht
  | case5 c r h1 h2 h3 h4 =>
      exact .inr ⟨some c, [c], r, rfl, isFirstUnit_ordinary ⟨h3, h4⟩ r, .inl ⟨c, rfl, rfl, h3, h4⟩⟩
  | case6 => exact .inl rfl

/-- Escaping neither hides nor makes a character at the front of a text, unless it is one that
escaping writes in front of others. -/
theorem head?_escape_iff {c : Char} (hc : IsOrdinary c) (hquote : c ≠ '\x27') (hback : c ≠ '\\')
    (s : Text) : (escape s).head? = some c ↔ s.head? = some c := by
  rcases eq_nil_or_firstUnit s with rfl | ⟨u, a, r, rfl, hu, ⟨d, rfl, rfl, hd⟩ | ⟨rfl, ha⟩⟩
  · simp
  · rw [List.singleton_append, escape_cons hd, escapeUnit]
    split
    · next hd => simp [hd, Ne.symm hquote, Ne.symm hback]
    · rfl
  · rw [hu.escape_eq (List.prefix_refl r), List.head?_append_of_ne_nil _ hu.ne_nil]
    refine iff_of_false ?_ fun h => ha c (List.mem_of_head? h) hc
    simpa [escapeUnit] using Ne.symm hback

/-- A word without a character stands on one side of it. -/
theorem isInfix_or_of_not_mem {α : Type} {a : α} {w x y : List α} (ha : a ∉ w)
    (h : w <:+: x ++ a :: y) : w <:+: x ∨ w <:+: y := by
  obtain ⟨u, v, h⟩ := h
  rw [List.append_assoc] at h
  rcases List.append_eq_append_iff.1 h with ⟨z, rfl, hrest⟩ | ⟨z, rfl, hrest⟩
  · rcases List.append_eq_append_iff.1 hrest with ⟨z', rfl, -⟩ | ⟨z', rfl, hend⟩
    · exact .inl ⟨u, z', by simp⟩
    · match z' with
      | [] => exact .inl ⟨u, [], by simp⟩
      | b :: z' =>
          obtain ⟨rfl, -⟩ := List.cons.inj hend
          exact absurd (by simp) ha
  · match z, w with
    | [], [] => exact .inl List.nil_infix
    | [], b :: w =>
        obtain ⟨rfl, -⟩ := List.cons.inj hrest
        exact absurd List.mem_cons_self ha
    | b :: z, w =>
        obtain ⟨-, rfl⟩ := List.cons.inj hrest
        exact .inr ⟨z, v, by simp⟩

/-! ### Braces -/

def IsBrace (c : Char) : Prop := c = '{' ∨ c = '}'

instance (c : Char) : Decidable (IsBrace c) := inferInstanceAs (Decidable (_ ∨ _))

theorem IsBrace.isOrdinary {c : Char} (h : IsBrace c) : IsOrdinary c := by
  rcases h with rfl | rfl <;> decide

theorem IsBrace.ne_quote {c : Char} (h : IsBrace c) : c ≠ '\x27' := by
  rcases h with rfl | rfl <;> decide

private theorem IsBrace.not_mem_escapeUnit {c : Char} (h : IsBrace c) {u : Option Char}
    (hu : u ≠ some c) : c ∉ escapeUnit u := by
  match u with
  | none => rcases h with rfl | rfl <;> decide
  | some d =>
      rw [escapeUnit]
      split
      · rcases h with rfl | rfl <;> decide
      · simpa using fun he : c = d => hu (by rw [he])

theorem eq_nil_or_brace_or_unit (s : Text) :
    s = [] ∨ (∃ c r, s = c :: r ∧ IsBrace c) ∨
      ∃ u a r, s = a ++ r ∧ IsFirstUnit u a r ∧
        ∀ c, IsBrace c → c ∉ a ∧ c ∉ escapeUnit u := by
  rcases eq_nil_or_firstUnit s with hnil | ⟨u, a, r, rfl, hu, ⟨c, rfl, rfl, hc⟩ | ⟨rfl, ha⟩⟩
  · exact .inl hnil
  · by_cases hb : IsBrace c
    · exact .inr (.inl ⟨c, r, rfl, hb⟩)
    · refine .inr (.inr ⟨some c, [c], r, rfl, hu, fun d hd => ?_⟩)
      have hne : d ≠ c := fun h => hb (h ▸ hd)
      exact ⟨by simpa using hne, hd.not_mem_escapeUnit fun h => hne (Option.some.inj h).symm⟩
  · exact .inr (.inr ⟨none, a, r, rfl, hu, fun d hd =>
      ⟨fun hm => ha d hm hd.isOrdinary, hd.not_mem_escapeUnit (by simp)⟩⟩)

theorem head?_escape {c : Char} (hc : IsBrace c) (s : Text) :
    (escape s).head? = some c ↔ s.head? = some c :=
  head?_escape_iff hc.isOrdinary hc.ne_quote (by rcases hc with rfl | rfl <;> decide) s

/-! ### Trimming -/

/-- Characters of a kind, in front of one that is not, are what is taken of the kind. -/
theorem takeWhile_dropWhile_append {p : Char → Bool} {v rest : Text}
    (hv : ∀ c ∈ v, p c = true) (hrest : ∀ c ∈ rest.head?, p c = false) :
    (v ++ rest).takeWhile p = v ∧ (v ++ rest).dropWhile p = rest := by
  rw [List.takeWhile_append_of_pos hv, List.dropWhile_append_of_pos hv]
  match rest with
  | [] => exact ⟨List.append_nil v, rfl⟩
  | c :: rest =>
      have hc : ¬p c = true := by simp [hrest c rfl]
      rw [List.takeWhile_cons_of_neg hc, List.dropWhile_cons_of_neg hc, List.append_nil]
      exact ⟨rfl, rfl⟩

theorem takeWhile_dropWhile_append_cons {p : Char → Bool} {v : Text} {c : Char}
    (hv : ∀ d ∈ v, p d = true) (hc : p c = false) (rest : Text) :
    (v ++ c :: rest).takeWhile p = v ∧ (v ++ c :: rest).dropWhile p = c :: rest := by
  refine takeWhile_dropWhile_append hv fun d hd => ?_
  obtain rfl := Option.some.inj hd
  exact hc

theorem head?_dropWhile {p : Char → Bool} {s : Text} {c : Char} (h : c ∈ (s.dropWhile p).head?) :
    p c = false := by
  have hhead := List.head?_dropWhile_not p s
  rw [h] at hhead
  exact hhead

theorem trimRight_isPrefix (s : Text) : trimRight s <+: s := by
  rw [trimRight, ← List.reverse_suffix, List.reverse_reverse]
  exact List.dropWhile_suffix _

theorem trim_isInfix (s : Text) : trim s <:+: s :=
  (trimRight_isPrefix _).isInfix.trans (List.dropWhile_suffix _).isInfix

theorem trimLeft_eq_self {s : Text} (h : ∀ c ∈ s.head?, isBlank c = false) : trimLeft s = s := by
  match s with
  | [] => rfl
  | c :: s => exact List.dropWhile_cons_of_neg (by simp [h c rfl])

theorem trimRight_eq_self {s : Text} (h : ∀ c ∈ s.getLast?, isBlank c = false) :
    trimRight s = s := by
  have hreverse : trimLeft s.reverse = s.reverse := trimLeft_eq_self (by rwa [List.head?_reverse])
  rw [trimLeft] at hreverse
  rw [trimRight, hreverse, List.reverse_reverse]

theorem trim_eq_self {s : Text} (hfirst : ∀ c ∈ s.head?, isBlank c = false)
    (hlast : ∀ c ∈ s.getLast?, isBlank c = false) : trim s = s := by
  rw [trim, trimLeft_eq_self hfirst, trimRight_eq_self hlast]

theorem trimLeft_append (s t : Text) :
    trimLeft (s ++ t) = if trimLeft s = [] then trimLeft t else trimLeft s ++ t := by
  rw [trimLeft, List.dropWhile_append]
  exact if_congr List.isEmpty_iff rfl rfl

theorem trimRight_append (s t : Text) :
    trimRight (s ++ t) = if trimRight t = [] then trimRight s else s ++ trimRight t := by
  rw [trimRight, List.reverse_append, List.dropWhile_append, apply_ite List.reverse,
    List.reverse_append, List.reverse_reverse]
  exact if_congr (List.isEmpty_iff.trans List.reverse_eq_nil_iff.symm) rfl rfl

private theorem mem_dropWhile_of_mem {α : Type} {p : α → Bool} {a : α} {l : List α}
    (ha : p a = false) (h : a ∈ l) : a ∈ l.dropWhile p := by
  rw [← List.takeWhile_append_dropWhile (p := p) (l := l),
    List.mem_append] at h
  rcases h with hfront | hrest
  · rw [List.mem_takeWhile_imp hfront] at ha
    cases ha
  · exact hrest

theorem mem_trim_iff {c : Char} (hc : isBlank c = false) {s : Text} : c ∈ trim s ↔ c ∈ s := by
  constructor
  · exact fun h => (trim_isInfix s).subset h
  · intro h
    rw [trim, trimRight, List.mem_reverse]
    exact mem_dropWhile_of_mem hc (List.mem_reverse.2 (mem_dropWhile_of_mem hc h))

end Stencil.Text
