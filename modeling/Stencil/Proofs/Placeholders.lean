import Mathlib.Data.List.Infix
import Stencil.Proofs.Digits
import Stencil.Placeholder.Protect

/-!
# How placeholders are found

A text is read as characters and placeholders from left to right. If no placeholder stands across
a cut, the two sides are read on their own, which is what lets a text be taken apart. A cut is of
this kind next to a character that no placeholder has, and, if no placeholder can begin inside
another one, at either end of a placeholder. The placeholders that are found are then all that
stand in the text.
-/

namespace Stencil

/-- What stands at the front of a composed text ends within its first part or goes beyond it. -/
theorem Text.prefix_append_cases {w x y : Text} (h : w <+: x ++ y) :
    w <+: x ∨ ∃ beyond, beyond ≠ [] ∧ beyond <+: y ∧ w = x ++ beyond := by
  obtain ⟨rest, hrest⟩ := h
  rcases List.append_eq_append_iff.1 hrest with ⟨within, rfl, -⟩ | ⟨beyond, rfl, rfl⟩
  · exact .inl (List.prefix_append w within)
  · match beyond with
    | [] => exact .inl (by rw [List.append_nil])
    | c :: beyond => exact .inr ⟨c :: beyond, by simp, List.prefix_append _ rest, rfl⟩

namespace Placeholder.Format

variable {f : Format}

/-! ### Placeholders in texts -/

/-- The digits of some number, of any script. -/
def IsNumeral (ds : Text) : Prop := ds ≠ [] ∧ ∀ c ∈ ds, Text.isDigit c = true

def IsPlaceholder (f : Format) (w : Text) : Prop := ∃ ds, IsNumeral ds ∧ w = f.partText (.hole ds)

def Holds (f : Format) (s ds : Text) : Prop := IsNumeral ds ∧ f.partText (.hole ds) <:+: s

theorem Holds.mono {s t ds : Text} (h : f.Holds s ds) (hpart : s <:+: t) : f.Holds t ds :=
  ⟨h.1, h.2.trans hpart⟩

theorem Holds.opening_isInfix {s ds : Text} (h : f.Holds s ds) : f.opening <:+: s :=
  List.IsInfix.trans ⟨[], ds ++ f.closing, by simp [partText]⟩ h.2

theorem Holds.length_le {s ds : Text} (h : f.Holds s ds) : ds.length ≤ s.length := by
  have hlength := h.2.length_le
  simp only [partText, List.length_append] at hlength
  omega

theorem isNumeral_ofNat (n : Nat) : IsNumeral (Text.ofNat n) :=
  ⟨Text.ofNat_ne_nil n, fun _ hc => Text.isDigit_of_mem_ofNat hc⟩

theorem make_eq (f : Format) (n : Nat) : f.make n = f.partText (.hole (Text.ofNat n)) := rfl

theorem isPlaceholder_make (f : Format) (n : Nat) : f.IsPlaceholder (f.make n) :=
  ⟨_, isNumeral_ofNat n, rfl⟩

theorem IsPlaceholder.ne_nil {w : Text} (h : f.IsPlaceholder w) : w ≠ [] := by
  obtain ⟨ds, ⟨hne, -⟩, rfl⟩ := h
  simp [partText, hne]

/-! ### A placeholder at the front -/

private theorem exists_number? {closing s es : Text} (hes : IsNumeral es)
    (h : es ++ closing <+: s) :
    ∃ ds rest, number? closing s = some (ds, rest) ∧ es.length ≤ ds.length := by
  obtain ⟨hne, hdigits⟩ := hes
  induction es generalizing s with
  | nil => exact absurd rfl hne
  | cons e es ih =>
      obtain ⟨he, hes⟩ := List.forall_mem_cons.1 hdigits
      obtain ⟨rest, rfl⟩ := h
      rw [List.cons_append, List.cons_append, number?, if_pos he]
      match es with
      | [] =>
          match hnumber : number? closing ([] ++ closing ++ rest) with
          | some (ds, r) => exact ⟨e :: ds, r, rfl, by simp⟩
          | none => exact ⟨[e], rest, by simp, Nat.le_refl 1⟩
      | d :: es =>
          obtain ⟨ds, r, hnumber, hlength⟩ := ih (List.prefix_append _ rest) (by simp) hes
          rw [hnumber]
          exact ⟨e :: ds, r, rfl, Nat.succ_le_succ hlength⟩

/-- Of the placeholders at the front of a text, the one with the most digits is read. -/
theorem exists_match? {s es : Text} (hes : IsNumeral es) (h : f.partText (.hole es) <+: s) :
    ∃ ds rest, f.match? s = some (ds, rest) ∧ es.length ≤ ds.length := by
  obtain ⟨rest, rfl⟩ := h
  rw [match?, partText, List.append_assoc, List.append_assoc, Text.dropFront?_append,
    Option.bind_some, ← List.append_assoc]
  exact exists_number? hes (List.prefix_append _ rest)

theorem match?_eq_none_iff {s : Text} :
    f.match? s = none ↔ ∀ w, f.IsPlaceholder w → ¬w <+: s := by
  constructor
  · rintro h w ⟨ds, hds, rfl⟩ hfront
    obtain ⟨es, rest, hmatch, -⟩ := exists_match? hds hfront
    rw [h] at hmatch
    cases hmatch
  · intro h
    refine Option.eq_none_iff_forall_ne_some.2 fun ⟨ds, rest⟩ hsome => ?_
    obtain ⟨hs, hds⟩ := eq_of_match? hsome
    exact h _ ⟨ds, hds, rfl⟩ ⟨rest, by rw [hs]; simp [partText]⟩

/-- What follows the text does not make a placeholder of it. -/
def StopsBefore (f : Format) (v rest : Text) : Prop :=
  ∀ right, right <+: rest → right ≠ [] → ¬f.IsPlaceholder (v ++ right)

theorem StopsBefore.nil (v : Text) : f.StopsBefore v [] :=
  fun _ hright hne => absurd (List.prefix_nil.1 hright) hne

/-- A placeholder is read as it stands if it is no front of another one. -/
theorem match?_eq_of_stopsBefore {ds rest : Text} (hds : IsNumeral ds)
    (h : f.StopsBefore (f.partText (.hole ds)) rest) :
    f.match? (f.partText (.hole ds) ++ rest) = some (ds, rest) := by
  obtain ⟨es, rest', hmatch, hlength⟩ := exists_match? hds (List.prefix_append _ rest)
  obtain ⟨hs, hes⟩ := eq_of_match? hmatch
  have hs' : f.partText (.hole ds) ++ rest = f.partText (.hole es) ++ rest' := by
    rw [hs]
    simp [partText]
  have hshorter : (f.partText (.hole ds)).length ≤ (f.partText (.hole es)).length := by
    simp only [partText, List.length_append]
    omega
  obtain ⟨right, hright⟩ := List.prefix_of_prefix_length_le (List.prefix_append _ rest)
    ⟨rest', hs'.symm⟩ hshorter
  rw [← hright, List.append_assoc, List.append_cancel_left_eq] at hs'
  cases right with
  | nil =>
      obtain rfl : ds = es := by simpa [partText] using hright
      rw [hmatch, hs', List.nil_append]
  | cons c right => exact absurd ⟨es, hes, hright⟩ (h _ ⟨rest', hs'.symm⟩ (by simp))

/-- The digits of a placeholder end where its closing begins. -/
def EndsDigits (f : Format) : Prop := ∃ c r, f.closing = c :: r ∧ Text.isDigit c = false

/-- A placeholder is no front of another one. -/
theorem eq_nil_of_append (hf : f.EndsDigits) {v right : Text} (hv : f.IsPlaceholder v)
    (h : f.IsPlaceholder (v ++ right)) : right = [] := by
  obtain ⟨ds, ⟨-, hds⟩, rfl⟩ := hv
  obtain ⟨es, ⟨-, hes⟩, heq⟩ := h
  obtain ⟨c, r, hclosing, hc⟩ := hf
  have hdigits : ds ++ c :: (r ++ right) = es ++ c :: r := by simpa [partText, hclosing] using heq
  have htake (t rest : Text) (ht : ∀ d ∈ t, Text.isDigit d = true) :
      (t ++ c :: rest).takeWhile Text.isDigit = t := by
    rw [List.takeWhile_append_of_pos ht, List.takeWhile_cons_of_neg (by simp [hc]), List.append_nil]
  have hsame : ds = es := by rw [← htake ds _ hds, hdigits, htake es _ hes]
  rw [hsame, List.append_cancel_left_eq, List.cons.injEq] at hdigits
  exact List.append_right_eq_self.1 hdigits.2

theorem match?_eq (hf : f.EndsDigits) {ds : Text} (hds : IsNumeral ds) (rest : Text) :
    f.match? (f.partText (.hole ds) ++ rest) = some (ds, rest) :=
  match?_eq_of_stopsBefore hds fun _ _ hne hlonger => hne (eq_nil_of_append hf ⟨ds, hds, rfl⟩ hlonger)

/-! ### Reading a text in parts -/

theorem parts_of_match? {s ds rest : Text} (h : f.match? s = some (ds, rest)) :
    f.parts s = .hole ds :: f.parts rest := by
  rw [parts]
  split
  · next heq =>
      rw [h] at heq
      obtain ⟨rfl, rfl⟩ := Prod.mk.inj (Option.some.inj heq)
      rfl
  · next heq => rw [h] at heq; cases heq

theorem parts_cons {c : Char} {r : Text} (h : f.match? (c :: r) = none) :
    f.parts (c :: r) = .char c :: f.parts r := by
  rw [parts]
  split
  · next heq => rw [h] at heq; cases heq
  · rfl

@[simp] theorem parts_nil (f : Format) : f.parts [] = [] := by
  have h : f.match? [] = none := by
    rw [match?, Option.bind_eq_none_iff]
    intro t ht
    have hnil := Text.dropFront?_eq_some_iff.1 ht
    rw [(List.append_eq_nil_iff.1 hnil.symm).2, number?]
  rw [parts]
  split
  · next heq => rw [h] at heq; cases heq
  · rfl

/-- No placeholder stands across the cut between two texts. -/
def Clean (f : Format) (x y : Text) : Prop :=
  ∀ left right, left <:+ x → right <+: y → left ≠ [] → right ≠ [] →
    ¬f.IsPlaceholder (left ++ right)

theorem Clean.nil_right (x : Text) : f.Clean x [] :=
  fun _ _ _ hright _ hne => absurd (List.prefix_nil.1 hright) hne

/-- Text behind a clean cut makes no difference to the placeholder at the front. -/
theorem match?_append {x y : Text} (h : f.Clean x y) (hx : x ≠ []) :
    f.match? (x ++ y) = (f.match? x).map fun found => (found.1, found.2 ++ y) := by
  match hmatch : f.match? x with
  | none =>
      rw [Option.map_none, match?_eq_none_iff]
      intro w hw hfront
      rcases Text.prefix_append_cases hfront with hwithin | ⟨beyond, hne, hbeyond, rfl⟩
      · exact match?_eq_none_iff.1 hmatch w hw hwithin
      · exact h x beyond List.suffix_rfl hbeyond hx hne hw
  | some (ds, rest) =>
      obtain ⟨hs, hds⟩ := eq_of_match? hmatch
      obtain rfl : x = f.partText (.hole ds) ++ rest := by rw [hs]; simp [partText]
      rw [Option.map_some, List.append_assoc]
      refine match?_eq_of_stopsBefore hds fun right hright hne hlonger => ?_
      rcases Text.prefix_append_cases hright with hwithin | ⟨beyond, hbeyond, hfront, rfl⟩
      · -- A longer placeholder before the cut would have been read.
        obtain ⟨es, hes, heq⟩ := hlonger
        have hfront : f.partText (.hole es) <+: f.partText (.hole ds) ++ rest := by
          rwa [← heq, List.prefix_append_right_inj]
        obtain ⟨ds', rest', hmatch', hlength⟩ := exists_match? hes hfront
        rw [hmatch] at hmatch'
        obtain ⟨rfl, -⟩ := Prod.mk.inj (Option.some.inj hmatch')
        have hlengths := congrArg List.length heq
        have hpos := List.length_pos_iff.2 hne
        simp only [partText, List.length_append] at hlengths
        omega
      · rw [← List.append_assoc] at hlonger
        exact h _ beyond List.suffix_rfl hfront hx hbeyond hlonger

/-- The two sides of a clean cut are read on their own. -/
theorem parts_append {x y : Text} (h : f.Clean x y) : f.parts (x ++ y) = f.parts x ++ f.parts y := by
  fun_induction parts f x with
  | case1 x ds rest hmatch ih =>
      obtain ⟨hs, hne, -⟩ := eq_of_match? hmatch
      have hx : x ≠ [] := by simp [hs, hne]
      rw [parts_of_match? (s := x ++ y) (by rw [match?_append h hx, hmatch]; rfl), ih,
        List.cons_append]
      intro left right hleft
      exact h left right (hleft.trans ⟨f.opening ++ (ds ++ f.closing), by simp [hs]⟩)
  | case2 => rw [List.nil_append, List.nil_append]
  | case3 c r hmatch ih =>
      have hnone : f.match? (c :: (r ++ y)) = none := by
        rw [← List.cons_append, match?_append h (by simp), hmatch, Option.map_none]
      rw [List.cons_append, parts_cons hnone, ih, List.cons_append]
      intro left right hleft
      exact h left right (hleft.trans (List.suffix_cons c r))

theorem parts_partText (hf : f.EndsDigits) {ds : Text} (hds : IsNumeral ds) :
    f.parts (f.partText (.hole ds)) = [.hole ds] := by
  have hmatch := match?_eq hf hds []
  rw [List.append_nil] at hmatch
  rw [parts_of_match? hmatch, parts_nil]

theorem parts_eq_map_char_of_not_holds {s : Text} (h : ∀ ds, ¬f.Holds s ds) :
    f.parts s = s.map .char := by
  fun_induction parts f s with
  | case1 s ds rest hmatch ih =>
      obtain ⟨rfl, hds⟩ := eq_of_match? hmatch
      exact absurd ⟨hds, [], rest, by simp [partText]⟩ (h ds)
  | case2 => rfl
  | case3 c r hmatch ih =>
      rw [ih fun ds hds => h ds (hds.mono (List.suffix_cons c r).isInfix), List.map_cons]

/-- A text without the beginning of a placeholder is read as its characters. -/
theorem parts_eq_map_char {s : Text} (h : ¬f.opening <:+: s) : f.parts s = s.map .char :=
  parts_eq_map_char_of_not_holds fun _ hds => h hds.opening_isInfix

/-! ### Clean cuts -/

/-- No placeholder has the character. -/
def IsForeign (f : Format) (c : Char) : Prop :=
  c ∉ f.opening ∧ c ∉ f.closing ∧ Text.isDigit c = false

instance (f : Format) (c : Char) : Decidable (f.IsForeign c) :=
  inferInstanceAs (Decidable (_ ∧ _ ∧ _))

theorem IsForeign.not_mem {c : Char} (hc : f.IsForeign c) {w : Text} (hw : f.IsPlaceholder w) :
    c ∉ w := by
  obtain ⟨hopening, hclosing, hdigit⟩ := hc
  obtain ⟨ds, ⟨-, hdigits⟩, rfl⟩ := hw
  simp only [partText, List.mem_append, not_or]
  refine ⟨⟨hopening, fun hmem => ?_⟩, hclosing⟩
  rw [hdigits c hmem] at hdigit
  cases hdigit

theorem IsPlaceholder.mem_right {b : Char} (hb : f.closing.getLast? = some b) {left right : Text}
    (h : f.IsPlaceholder (left ++ right)) (hne : right ≠ []) : b ∈ right := by
  obtain ⟨ds, -, hw⟩ := h
  obtain ⟨closing, hclosing⟩ := List.getLast?_eq_some_iff.1 hb
  have hlast := congrArg List.getLast? hw
  rw [partText, hclosing, ← List.append_assoc, List.getLast?_concat,
    List.getLast?_append_of_ne_nil _ hne] at hlast
  exact List.mem_of_getLast? hlast

/-- A cut is clean before a foreign character, and also before text in front of one in which no
placeholder can end. -/
theorem clean_of_foreign_right {b c : Char} (hb : f.closing.getLast? = some b) (hc : f.IsForeign c)
    {front : Text} (hfront : b ∉ front) (x y : Text) : f.Clean x (front ++ c :: y) := by
  rintro left right - ⟨tail, htail⟩ - hr hw
  rcases List.append_eq_append_iff.1 htail with ⟨between, rfl, -⟩ | ⟨between, rfl, hright⟩
  · exact hfront (List.mem_append_left _ (hw.mem_right hb hr))
  · match between with
    | [] =>
        rw [List.append_nil] at hw hr
        exact hfront (hw.mem_right hb hr)
    | d :: between =>
        obtain ⟨rfl, -⟩ := List.cons.inj hright
        exact hc.not_mem hw (by simp)

theorem parts_append_of_foreign (x : Text) {y : Text} (hy : ∀ c ∈ y.head?, f.IsForeign c) :
    f.parts (x ++ y) = f.parts x ++ f.parts y := by
  refine parts_append fun left right _ hright _ hne hw => ?_
  obtain ⟨c, right, rfl⟩ := List.exists_cons_of_ne_nil hne
  obtain ⟨rest, rfl⟩ := hright
  exact (hy c rfl).not_mem hw (by simp)

theorem parts_around_foreign {c : Char} (hc : f.IsForeign c) (x y : Text) :
    f.parts (x ++ c :: y) = f.parts x ++ .char c :: f.parts y := by
  have hnone : f.match? (c :: y) = none := by
    refine match?_eq_none_iff.2 fun w hw hfront => ?_
    obtain ⟨d, w, rfl⟩ := List.exists_cons_of_ne_nil hw.ne_nil
    obtain ⟨rfl, -⟩ := List.cons_prefix_cons.1 hfront
    exact hc.not_mem hw List.mem_cons_self
  rw [parts_append_of_foreign x fun d hd => by rwa [← Option.some.inj hd], parts_cons hnone]

theorem parts_between {d e : Char} (hd : f.IsForeign d) (he : f.IsForeign e) (x w y : Text) :
    f.parts (x ++ d :: (w ++ e :: y)) =
      f.parts x ++ .char d :: (f.parts w ++ .char e :: f.parts y) := by
  rw [parts_around_foreign hd, parts_around_foreign he]

theorem parts_around_list {c : Char} (hc : f.IsForeign c) {list : Text}
    (hlist : ∀ d ∈ list.head?, f.IsForeign d) (x y : Text) :
    f.parts (x ++ (list ++ c :: y)) =
      f.parts x ++ (f.parts list ++ .char c :: f.parts y) := by
  rw [← parts_around_foreign hc, parts_append_of_foreign x]
  intro d hd
  match list with
  | [] => rwa [← Option.some.inj hd]
  | e :: list => exact hlist d hd

theorem parts_append_of_not_mem {a : Char} (ha : f.opening.head? = some a) {t : Text} (h : a ∉ t)
    (y : Text) : f.parts (t ++ y) = t.map .char ++ f.parts y := by
  induction t with
  | nil => rfl
  | cons c t ih =>
      obtain ⟨hc, ht⟩ := not_or.1 (mt List.mem_cons.2 h)
      have hnone : f.match? (c :: (t ++ y)) = none := by
        refine Option.eq_none_iff_forall_ne_some.2 fun ⟨ds, rest⟩ hsome => hc ?_
        obtain ⟨hs, -⟩ := eq_of_match? hsome
        obtain ⟨opening, hopening⟩ := List.head?_eq_some_iff.1 ha
        rw [hopening] at hs
        exact (List.cons.inj hs).1.symm
      rw [List.cons_append, parts_cons hnone, ih ht]
      rfl

/-! ### Formats whose placeholders do not overlap -/

/-- The digits of a placeholder end where its closing begins, and no placeholder begins inside
another one. -/
structure IsClear (f : Format) : Prop where
  endsDigits : f.EndsDigits
  apart : ∀ {v w front tail : Text}, f.IsPlaceholder v → f.IsPlaceholder w → v = front ++ tail →
    front ≠ [] → tail ≠ [] → ¬tail <+: w ∧ ¬w <+: tail

theorem IsClear.clean_left (hf : f.IsClear) {v : Text} (hv : f.IsPlaceholder v) (x y : Text) :
    f.Clean x (v ++ y) := by
  intro left right _ hright hl hr hw
  obtain ⟨h1, h2⟩ := hf.apart hw hv rfl hl hr
  rcases List.prefix_or_prefix_of_prefix hright (List.prefix_append v y) with h | h
  · exact h1 h
  · exact h2 h

theorem IsClear.clean_right (hf : f.IsClear) {v : Text} (hv : f.IsPlaceholder v) (y : Text) :
    f.Clean v y := by
  rintro left right ⟨front, rfl⟩ - hl hr hw
  match front with
  | [] => exact hr (eq_nil_of_append hf.endsDigits hv hw)
  | d :: front =>
      exact (hf.apart hv hw rfl (by simp) hl).1 (List.prefix_append left right)

theorem IsClear.parts_around (hf : f.IsClear) {ds : Text} (hds : IsNumeral ds) (x y : Text) :
    f.parts (x ++ (f.partText (.hole ds) ++ y)) = f.parts x ++ .hole ds :: f.parts y := by
  have hw : f.IsPlaceholder (f.partText (.hole ds)) := ⟨ds, hds, rfl⟩
  rw [parts_append (hf.clean_left hw x y),
    parts_append (hf.clean_right hw y), parts_partText hf.endsDigits hds,
    List.singleton_append]

private theorem isNumeral_of_hole_mem {s ds : Text} (h : .hole ds ∈ f.parts s) : IsNumeral ds := by
  fun_induction parts f s with
  | case1 s es rest hmatch ih =>
      rcases List.mem_cons.1 h with heq | hrest
      · obtain rfl := Part.hole.inj heq
        exact (eq_of_match? hmatch).2
      · exact ih hrest
  | case2 => cases h
  | case3 c r hmatch ih => exact ih (by simpa using h)

theorem IsClear.hole_mem_parts_iff (hf : f.IsClear) {s ds : Text} :
    .hole ds ∈ f.parts s ↔ f.Holds s ds := by
  constructor
  · intro h
    obtain ⟨before, after, heq⟩ := List.append_of_mem h
    have hs := flatMap_partText_parts f s
    rw [heq, List.flatMap_append, List.flatMap_cons] at hs
    exact ⟨isNumeral_of_hole_mem h, _, _, by rw [List.append_assoc]; exact hs⟩
  · rintro ⟨hds, before, after, rfl⟩
    rw [List.append_assoc, hf.parts_around hds]
    simp

theorem mem_locate_iff {n : Nat} {ps : List Part} {ds : Text} :
    (∃ found ∈ f.locate n ps, found.digits = ds) ↔ .hole ds ∈ ps := by
  induction ps generalizing n with
  | nil => simp [locate]
  | cons p ps ih =>
      match p with
      | .char c => simp [locate, ih]
      | .hole es =>
          simp only [locate, List.mem_cons, exists_eq_or_imp, ih, Part.hole.injEq, eq_comm (a := es)]

theorem mem_find_iff {s ds : Text} :
    (∃ found ∈ f.find s, found.digits = ds) ↔ .hole ds ∈ f.parts s :=
  mem_locate_iff

/-! ### The formats of the default settings -/

/-- Two characters that stand side by side in front of text without the first of them stand side by
side without it, unless the cut is between them. -/
private theorem pair_isInfix_of_append {a b : Char} {x y : Text} (h : [a, b] <:+: x ++ y)
    (hy : a ∉ y) (hx : x.getLast? ≠ some a) : [a, b] <:+: x := by
  obtain ⟨before, after, heq⟩ := h
  rw [List.append_assoc] at heq
  rcases List.append_eq_append_iff.1 heq with ⟨between, rfl, hrest⟩ | ⟨between, rfl, rfl⟩
  · match between with
    | [] =>
        rw [List.nil_append] at hrest
        exact absurd (hrest ▸ List.mem_cons_self) hy
    | [c] =>
        obtain ⟨rfl, -⟩ := List.cons.inj hrest
        exact absurd (List.getLast?_concat) hx
    | c :: d :: between =>
        obtain ⟨hc, hrest⟩ := List.cons.inj hrest
        obtain ⟨hd, -⟩ := List.cons.inj hrest
        exact ⟨before, between, by simp [hc, hd]⟩
  · exact absurd (by simp) hy

/-- The text begins with two characters that do not come side by side again, and it does not end
with the first of them. -/
def BeginsOnce (a b : Char) (w : Text) : Prop :=
  ∃ rest, w = a :: b :: rest ∧ ¬[a, b] <:+: b :: rest ∧ (b :: rest).getLast? ≠ some a

/-- The opening begins with two characters that do not come side by side again in a placeholder. -/
structure HasPair (f : Format) (a b : Char) : Prop where
  endsDigits : f.EndsDigits
  opening : BeginsOnce a b f.opening
  not_digit : Text.isDigit a = false
  not_mem_closing : a ∉ f.closing

namespace HasPair

variable {a b : Char} {v w front tail : Text}

/-- Inside a placeholder there is no beginning of text that begins with the two characters. -/
theorem apart (hf : f.HasPair a b) (hv : f.IsPlaceholder v) (hsplit : v = front ++ tail)
    (hfront : front ≠ []) (htail : tail ≠ []) (hw : [a, b] <+: w) : ¬tail <+: w ∧ ¬w <+: tail := by
  obtain ⟨ds, ⟨-, hdigits⟩, rfl⟩ := hv
  obtain ⟨rest, hopening, hpair, hlast⟩ := hf.opening
  obtain ⟨c, front, rfl⟩ := List.exists_cons_of_ne_nil hfront
  have hds : a ∉ ds ++ f.closing := by
    rw [List.mem_append, not_or]
    refine ⟨fun hmem => ?_, hf.not_mem_closing⟩
    have hdigit := hf.not_digit
    rw [hdigits a hmem] at hdigit
    cases hdigit
  have hrest : front ++ tail = (b :: rest) ++ (ds ++ f.closing) := by
    rw [partText, hopening] at hsplit
    simpa using (List.cons.inj hsplit).2.symm
  have hpairs : ¬[a, b] <:+: front ++ tail := fun h =>
    hpair (pair_isInfix_of_append (hrest ▸ h) hds hlast)
  constructor
  · rintro ⟨u, hu⟩
    obtain ⟨u', rfl⟩ := hw
    obtain ⟨d, tail, rfl⟩ := List.exists_cons_of_ne_nil htail
    obtain ⟨rfl, hsecond⟩ := List.cons.inj hu
    cases tail with
    | nil =>
        -- The last character of a placeholder is in its closing.
        obtain ⟨c', closing, hne, -⟩ := hf.endsDigits
        have hend : (ds ++ f.closing).getLast? = some d := by
          rw [← List.getLast?_append_of_ne_nil (b :: rest) (by simp [hne]), ← hrest]
          simp
        exact hds (List.mem_of_getLast? hend)
    | cons e tail =>
        obtain ⟨rfl, -⟩ := List.cons.inj hsecond
        exact hpairs ⟨front, tail, by simp⟩
  · intro h
    exact hpairs ((hw.trans h).isInfix.trans (List.suffix_append front tail).isInfix)

theorem prefix_partText (hf : f.HasPair a b) (ds : Text) : [a, b] <+: f.partText (.hole ds) := by
  obtain ⟨rest, hopening, -⟩ := hf.opening
  rw [partText, hopening]
  exact ⟨rest ++ ds ++ f.closing, by simp⟩

theorem isClear (hf : f.HasPair a b) : f.IsClear := by
  refine ⟨hf.endsDigits, ?_⟩
  intro v w front tail hv ⟨ds, _, hw⟩ hsplit hfront htail
  exact hf.apart hv hsplit hfront htail (hw ▸ hf.prefix_partText ds)

/-- Text that begins like a placeholder, and is not the front of one, is read on its own. -/
theorem parts_around (hf : f.HasPair a b) (hw : BeginsOnce a b w)
    (hfront : ∀ v, f.IsPlaceholder v → ¬w <+: v) (x y : Text) :
    f.parts (x ++ (w ++ y)) = f.parts x ++ (f.parts w ++ f.parts y) := by
  obtain ⟨rest, rfl, hpair, hlast⟩ := hw
  have hbegin : [a, b] <+: a :: b :: rest := ⟨rest, rfl⟩
  have hleft : f.Clean x (a :: b :: rest ++ y) := by
    intro left right _ hright hl hr hv
    obtain ⟨h1, h2⟩ := hf.apart hv rfl hl hr hbegin
    rcases List.prefix_or_prefix_of_prefix hright (List.prefix_append _ y) with h | h
    · exact h1 h
    · exact h2 h
  have hright : f.Clean (a :: b :: rest) y := by
    -- A placeholder across this cut has the two characters at its beginning, and they are side by
    -- side in this text at the front only.
    intro left right ⟨u, hu⟩ _ hl _ hv
    have hbegins : [a, b] <+: left ++ right := by
      obtain ⟨ds, -, hds⟩ := hv
      exact hds ▸ hf.prefix_partText ds
    obtain ⟨t, ht⟩ := hbegins
    match u, left with
    | [], left => exact hfront _ hv ⟨right, by rw [← hu]; rfl⟩
    | _ :: u, [] => exact hl rfl
    | _ :: u, [d] =>
        obtain ⟨rfl, -⟩ := List.cons.inj ht
        exact hlast (by rw [← (List.cons.inj hu).2]; simp)
    | _ :: u, d :: e :: left =>
        obtain ⟨rfl, hsecond⟩ := List.cons.inj ht
        obtain ⟨rfl, -⟩ := List.cons.inj hsecond
        exact hpair ⟨u, left, by rw [← (List.cons.inj hu).2]; simp⟩
  rw [parts_append hleft, parts_append hright]

end HasPair

theorem hasPair_tags : ({} : Settings).tagPlaceholders.HasPair 't' 'e' :=
  ⟨⟨'-', "ph".toList, rfl, by decide⟩, ⟨_, rfl, by decide, by decide⟩, by decide, by decide⟩

theorem isClear_tags : ({} : Settings).tagPlaceholders.IsClear := hasPair_tags.isClear

/-! ### The formats of admitted settings -/

/-- Placeholders have the characters of names only. They begin with a small letter, and a hyphen
stands before their digits. -/
structure IsName (f : Format) : Prop where
  begins : ∃ c r, f.opening = c :: r ∧ Settings.isSmallLetter c = true
  hyphen : ∃ r, f.opening = r ++ ['-']
  opening : ∀ c ∈ f.opening, Settings.isNameChar c = true
  closing : ∀ c ∈ f.closing, Settings.isNameChar c = true
  closing_ne_nil : f.closing ≠ []

theorem IsName.isForeign (hf : f.IsName) {c : Char} (hname : Settings.isNameChar c = false)
    (hdigit : Text.isDigit c = false) : f.IsForeign c := by
  refine ⟨fun hc => ?_, fun hc => ?_, hdigit⟩
  · rw [hf.opening c hc] at hname
    cases hname
  · rw [hf.closing c hc] at hname
    cases hname

/-! ### Filling -/

/-- What stands in place of a character or placeholder once protected text is put back, if the
number of the placeholder can be read. -/
def filled (f : Format) (kept : List Text) : Part → Text
  | .char c => [c]
  | .hole ds => kept[Text.digitsValue ds]?.getD (f.partText (.hole ds))

theorem flatMap_filled_map_char (kept : List Text) (t : Text) :
    (t.map Part.char).flatMap (f.filled kept) = t := by
  rw [List.flatMap_map]
  exact List.flatMap_singleton' t

theorem fillAll_append (f : Format) (kept : List Text) (a b : List Part) :
    f.fillAll kept (a ++ b) =
      (f.fillAll kept a).bind fun t => (f.fillAll kept b).map (t ++ ·) := by
  induction a with
  | nil =>
      rw [List.nil_append, fillAll]
      cases f.fillAll kept b <;> rfl
  | cons p a ih =>
      rw [List.cons_append, fillAll, fillAll, ih]
      match f.fill kept p, f.fillAll kept a, f.fillAll kept b with
      | .error _, _, _ | .ok _, .error _, _ | .ok _, .ok _, .error _ => rfl
      | .ok _, .ok _, .ok _ => exact congrArg Except.ok (List.append_assoc _ _ _).symm

theorem fill_eq_ok {kept : List Text} {p : Part}
    (h : ∀ ds, p = .hole ds → ds.length ≤ maxDigits) :
    f.fill kept p = .ok (f.filled kept p) := by
  match p with
  | .char c => rfl
  | .hole ds => rw [fill, readNumber, if_pos (h ds rfl)]; rfl

theorem fill_eq_error {kept : List Text} {ds : Text} (h : maxDigits < ds.length) :
    f.fill kept (.hole ds) = .error ⟨ds.length⟩ := by
  rw [fill, readNumber, if_neg (by omega)]

theorem fillAll_eq_ok {kept : List Text} {ps : List Part}
    (h : ∀ ds, .hole ds ∈ ps → ds.length ≤ maxDigits) :
    f.fillAll kept ps = .ok (ps.flatMap (f.filled kept)) := by
  induction ps with
  | nil => rfl
  | cons p ps ih =>
      have hp : f.fill kept p = .ok (f.filled kept p) :=
        fill_eq_ok fun ds hds => h ds (hds ▸ List.mem_cons_self)
      rw [fillAll, hp, ih fun ds hds => h ds (List.mem_cons_of_mem _ hds)]
      rfl

theorem exists_of_fillAll_eq_error {kept : List Text} {ps : List Part} {e : TooLong}
    (h : f.fillAll kept ps = .error e) :
    ∃ ds, .hole ds ∈ ps ∧ maxDigits < ds.length ∧ e = ⟨ds.length⟩ := by
  induction ps with
  | nil => cases h
  | cons p ps ih =>
      rw [fillAll] at h
      by_cases hp : ∃ ds, p = .hole ds ∧ maxDigits < ds.length
      · obtain ⟨ds, rfl, hlong⟩ := hp
        rw [fill_eq_error hlong] at h
        exact ⟨ds, List.mem_cons_self, hlong, (Except.error.inj h).symm⟩
      · rw [fill_eq_ok fun ds hds => not_lt.1 fun hlong => hp ⟨ds, hds, hlong⟩] at h
        match hrest : f.fillAll kept ps with
        | .ok _ => rw [hrest] at h; cases h
        | .error e' =>
            rw [hrest] at h
            obtain rfl := Except.error.inj h
            obtain ⟨ds, hds, hlong⟩ := ih hrest
            exact ⟨ds, List.mem_cons_of_mem _ hds, hlong⟩

theorem length_le_of_fillAll_eq_ok {kept : List Text} {ps : List Part} {t : Text}
    (h : f.fillAll kept ps = .ok t) {ds : Text} (hds : .hole ds ∈ ps) : ds.length ≤ maxDigits := by
  obtain ⟨before, after, rfl⟩ := List.append_of_mem hds
  by_contra hlong
  rw [fillAll_append, fillAll, fill_eq_error (not_le.1 hlong)] at h
  match hbefore : f.fillAll kept before with
  | .ok _ | .error _ => rw [hbefore] at h; cases h

theorem eq_of_fillAll_eq_ok {kept : List Text} {ps : List Part} {t : Text}
    (h : f.fillAll kept ps = .ok t) : t = ps.flatMap (f.filled kept) := by
  rw [fillAll_eq_ok fun ds hds => length_le_of_fillAll_eq_ok h hds] at h
  exact (Except.ok.inj h).symm

/-- Text between two characters that no placeholder has is restored on its own. -/
theorem exists_restore_between {kept : List Text} {x w y restored : Text} {d e : Char}
    (hd : f.IsForeign d) (he : f.IsForeign e)
    (h : f.restore kept (x ++ d :: (w ++ e :: y)) = .ok restored) :
    ∃ shown, f.restore kept w = .ok shown ∧ shown <:+: restored := by
  rw [restore, parts_between hd he] at h
  have hshort : ∀ ds, .hole ds ∈ f.parts w → ds.length ≤ maxDigits := fun ds hds =>
    length_le_of_fillAll_eq_ok h (by simp [hds])
  refine ⟨_, fillAll_eq_ok hshort, ?_⟩
  rw [eq_of_fillAll_eq_ok h]
  exact ⟨(f.parts x ++ [Part.char d]).flatMap (f.filled kept),
    (Part.char e :: f.parts y).flatMap (f.filled kept), by simp⟩

theorem filled_isInfix_of_restore {kept : List Text} {w shown ds : Text}
    (h : f.restore kept w = .ok shown) (hds : .hole ds ∈ f.parts w) :
    f.filled kept (.hole ds) <:+: shown := by
  obtain ⟨before, after, hparts⟩ := List.append_of_mem hds
  rw [eq_of_fillAll_eq_ok h, hparts]
  exact ⟨before.flatMap (f.filled kept), after.flatMap (f.filled kept), by simp⟩

end Placeholder.Format

open Placeholder.Format in
theorem Settings.Admitted.isName {s : Settings} (hs : s.Admitted) {kind : Text}
    (hkind : kind.all isNameChar = true) : (s.placeholders kind).IsName := by
  rw [List.all_eq_true] at hkind
  obtain ⟨-, -, -, hstart, hsuffix⟩ := admitted_iff.1 hs
  match hbegin : s.placeholderPrefix with
  | [] => rw [hbegin] at hstart; cases hstart
  | c :: r =>
      rw [hbegin, isPlaceholderPrefix, Bool.and_eq_true, List.all_eq_true] at hstart
      rw [isPlaceholderSuffix, Bool.and_eq_true, List.all_eq_true] at hsuffix
      have hletter : isNameChar c = true := by rw [isNameChar, hstart.1]; rfl
      refine ⟨⟨c, r ++ kind ++ ['-'], by simp [placeholders, hbegin], hstart.1⟩,
        ⟨c :: r ++ kind, by simp [placeholders, hbegin]⟩, ?_, hsuffix.2, ?_⟩
      · intro d hd
        simp only [placeholders, hbegin, List.mem_append, List.mem_cons, List.not_mem_nil,
          or_false] at hd
        rcases hd with ((rfl | hd) | hd) | rfl
        · exact hletter
        · exact hstart.2 d hd
        · exact hkind d hd
        · rfl
      · intro hnil
        simp [placeholders] at hnil
        simp [hnil] at hsuffix

theorem Settings.Admitted.isName_tags {s : Settings} (hs : s.Admitted) : s.tagPlaceholders.IsName :=
  hs.isName rfl

end Stencil
