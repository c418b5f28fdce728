import Stencil.Proofs.Separation

/-!
# Placeholders side by side

A placeholder begins with a letter, so the digits of the one before it cannot go on into it, and a
run of placeholders is read one after another from the left, even if their closing has digits. Two
kinds of placeholders end alike. If one stood in another, the hyphen before its digits could not be
among the digits of the other, so its opening would have to stand in the opening of the other: the
shorter word of the two kinds would be a part of the longer one.
-/

namespace Stencil

namespace Placeholder.Format

variable {f g : Format}

/-! ### Runs -/

private theorem IsName.not_isDigit_flatMap_make (hf : f.IsName) (ns : List Nat) :
    ∀ c ∈ (ns.flatMap fun n : Nat => f.make n).head?, Text.isDigit c = false := by
  cases ns with
  | nil =>
      intro c hc
      cases hc
  | cons n ns =>
      rw [List.flatMap_cons]
      exact hf.not_isDigit_make n _

theorem IsName.parts_flatMap_make (hf : f.IsName) (ns : List Nat) :
    f.parts (ns.flatMap fun n : Nat => f.make n) = ns.map fun n : Nat => .hole (Text.ofNat n) := by
  induction ns with
  | nil => exact parts_nil f
  | cons n ns ih =>
      have hstops : f.StopsBefore (f.make n) (ns.flatMap fun n : Nat => f.make n) :=
        (stopsBefore_append_iff (t := []) (hf.not_isDigit_flatMap_make ns)).2 (.nil _)
      have hmatch := match?_eq_of_stopsBefore (isNumeral_ofNat n) hstops
      rw [← make_eq] at hmatch
      rw [List.flatMap_cons, parts_of_match? hmatch, ih, List.map_cons]

theorem IsName.restore_eq (hf : f.IsName) (kept : List Text) {ns : List Nat}
    (hshort : ∀ n ∈ ns, (Text.ofNat n).length ≤ maxDigits) :
    f.restore kept (ns.flatMap fun n : Nat => f.make n) =
      .ok (ns.flatMap fun n : Nat => kept[n]?.getD (f.make n)) := by
  rw [restore, hf.parts_flatMap_make, fillAll_eq_ok, List.flatMap_map]
  · apply congrArg
    apply List.flatMap_congr
    intro n _
    rw [filled, Text.digitsValue_ofNat, make_eq]
  · intro ds hds
    obtain ⟨n, hn, heq⟩ := List.mem_map.1 hds
    rw [← Part.hole.inj heq]
    exact hshort n hn

/-! ### One placeholder -/

theorem digits?_make (f : Format) (n : Nat) : f.digits? (f.make n) = some (Text.ofNat n) := by
  obtain ⟨hne, hdigits⟩ := isNumeral_ofNat n
  have htake : (Text.ofNat n ++ f.closing).take
      ((Text.ofNat n ++ f.closing).length - f.closing.length) = Text.ofNat n := by
    rw [List.length_append, Nat.add_sub_cancel, List.take_left]
  have hclosing : f.closing.isSuffixOf (Text.ofNat n ++ f.closing) = true :=
    List.isSuffixOf_iff_suffix.2 (List.suffix_append _ _)
  rw [digits?, make_eq, partText, List.append_assoc, Text.dropFront?_append, Option.bind_some]
  dsimp only
  rw [htake, hclosing, List.all_eq_true.2 hdigits]
  simp [hne]

theorem extract_make (f : Format) {n : Nat} (h : (Text.ofNat n).length ≤ maxDigits) :
    f.extract (f.make n) = .ok (some n) := by
  rw [extract, digits?_make]
  dsimp only
  rw [readNumber, if_pos h, Text.digitsValue_ofNat]
  rfl

/-! ### Two kinds -/

/-- A placeholder of another kind that stands in a placeholder has its opening in the opening. -/
theorem IsName.opening_isInfix_of_holds (hg : g.IsName) (hclosing : f.closing = g.closing) {n : Nat}
    {ds : Text} (h : g.Holds (f.make n) ds) : g.opening <:+: f.opening := by
  obtain ⟨⟨hne, -⟩, front, back, heq⟩ := h
  obtain ⟨r, hr⟩ := hg.hyphen
  have hpos := List.length_pos_iff.2 hne
  rw [make_eq, partText, partText, hclosing] at heq
  have hlength := congrArg List.length heq
  simp only [List.length_append] at hlength
  have hfront : front ++ g.opening <+: f.opening ++ Text.ofNat n := by
    have hwithin : front ++ g.opening <+: f.opening ++ Text.ofNat n ++ g.closing :=
      ⟨ds ++ g.closing ++ back, by rw [← heq]; simp⟩
    apply List.prefix_of_prefix_length_le hwithin (List.prefix_append _ _)
    simp only [List.length_append]
    omega
  rcases Text.prefix_append_cases hfront with hwithin | ⟨beyond, hbeyond, hdigits, hsplit⟩
  · exact (List.suffix_append front g.opening).isInfix.trans hwithin.isInfix
  · -- The hyphen at the end of the opening would be one of the digits.
    have hlast : beyond.getLast? = some '-' := by
      rw [← List.getLast?_append_of_ne_nil f.opening hbeyond, ← hsplit, hr, ← List.append_assoc]
      exact List.getLast?_concat
    have hdigit := Text.isDigit_of_mem_ofNat (hdigits.subset (List.mem_of_getLast? hlast))
    exact absurd hdigit (by decide)

private theorem isInfix_of_opening_isInfix {s : Settings} {kind other : Text}
    (h : (s.placeholders other).opening <:+: (s.placeholders kind).opening) :
    other ++ ['-'] <:+: kind ++ ['-'] := by
  obtain ⟨front, back, heq⟩ := h
  have hlength := congrArg List.length heq
  simp only [Settings.placeholders, List.length_append, List.length_singleton] at hlength heq
  have hsuffix : other ++ ['-'] ++ back <:+ kind ++ ['-'] := by
    have hwithin : other ++ ['-'] ++ back <:+ s.placeholderPrefix ++ kind ++ ['-'] :=
      ⟨front ++ s.placeholderPrefix, by rw [← heq]; simp⟩
    apply List.suffix_of_suffix_length_le hwithin ⟨s.placeholderPrefix, by simp⟩
    simp only [List.length_append, List.length_singleton]
    omega
  exact (List.prefix_append _ back).isInfix.trans hsuffix.isInfix

/-- The words of the kinds of protected text, which are tags and attributes. -/
def kinds : List Text := ["tag".toList, "attrs".toList]

private theorem isName_of_mem_kinds {s : Settings} (hs : s.Admitted) {kind : Text}
    (h : kind ∈ kinds) : (s.placeholders kind).IsName := by
  have hnames : ∀ kind ∈ kinds, kind.all Settings.isNameChar = true := by decide
  exact hs.isName (hnames kind h)

/-- The placeholders of either kind are read as they were made, one by one and side by side, and
those of one kind have none of the other in them. -/
theorem restore_flatMap_make {s : Settings} (hs : s.Admitted) {kind : Text} (hkind : kind ∈ kinds) :
    (∀ (kept : List Text) (ns : List Nat), (∀ n ∈ ns, (Text.ofNat n).length ≤ maxDigits) →
      (s.placeholders kind).restore kept (ns.flatMap fun n : Nat => (s.placeholders kind).make n) =
        .ok (ns.flatMap fun n : Nat => kept[n]?.getD ((s.placeholders kind).make n))) ∧
    (∀ n : Nat, (Text.ofNat n).length ≤ maxDigits →
      (s.placeholders kind).extract ((s.placeholders kind).make n) = .ok (some n)) ∧
    ∀ other ∈ kinds, other ≠ kind → ∀ (n : Nat) (ds : Text),
      ¬(s.placeholders other).Holds ((s.placeholders kind).make n) ds := by
  have hname := isName_of_mem_kinds hs hkind
  refine ⟨?_, ?_, ?_⟩
  · intro kept ns hshort
    exact hname.restore_eq kept hshort
  · intro n hshort
    exact extract_make _ hshort
  · intro other hother hne n ds hholds
    have hwords : ∀ kind ∈ kinds, ∀ other ∈ kinds, other ≠ kind →
        ¬other ++ ['-'] <:+: kind ++ ['-'] := by decide
    apply hwords kind hkind other hother hne
    apply isInfix_of_opening_isInfix
    exact (isName_of_mem_kinds hs hother).opening_isInfix_of_holds rfl hholds

/-- Where the closing is a zero, the last zero behind each number is the closing. -/
theorem restore_flatMap_make_digit_suffix :
    ({ placeholderPrefix := "a".toList, placeholderSuffix := "0".toList } : Settings).Admitted ∧
      "tag".toList ∈ kinds ∧ (∀ n ∈ [1, 10, 7], (Text.ofNat n).length ≤ maxDigits) ∧
      (({ placeholderPrefix := "a".toList, placeholderSuffix := "0".toList } : Settings).placeholders
        "tag".toList).restore ["x".toList, "y".toList] "atag-10atag-100atag-70".toList =
          .ok "yatag-100atag-70".toList := by
  have hs : ({ placeholderPrefix := "a".toList, placeholderSuffix := "0".toList } :
      Settings).Admitted := by decide
  have hkind : "tag".toList ∈ kinds := by decide
  have hshort : ∀ n ∈ [1, 10, 7], (Text.ofNat n).length ≤ maxDigits := by decide
  exact ⟨hs, hkind, hshort,
    (restore_flatMap_make hs hkind).1 ["x".toList, "y".toList] [1, 10, 7] hshort⟩

end Placeholder.Format

end Stencil
