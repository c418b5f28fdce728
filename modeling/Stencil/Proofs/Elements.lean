import Mathlib.Data.List.Forall2
import Stencil.Html.RawText
import Stencil.Proofs.Escape
import Stencil.Proofs.Placeholders

/-!
# Script and style elements in markup

What makes a script or style element can be told without looking for one: a start tag whose name is
written in any case, a body, and the first end tag behind it that has the letters of this name. The
stretches of markup are then determined by two conditions. Every element among them is one in this
sense, and none begins at a character that belongs to no element. So the elements are the leftmost
ones, and none overlaps another.
-/

namespace Stencil

namespace Text

/-- A text spells a word of small letters, each of them in some case. -/
def Spells (word s : Text) : Prop := List.Forall₂ (fun letter c => isCaseOf letter c = true) word s

theorem dropWord?_eq_some_iff {word s front rest : Text} :
    dropWord? word s = some (front, rest) ↔ word.Spells front ∧ s = front ++ rest := by
  induction word generalizing s front with
  | nil =>
      rw [dropWord?, Spells, List.forall₂_nil_left_iff]
      constructor
      · intro h
        obtain ⟨rfl, rfl⟩ := Prod.mk.inj (Option.some.inj h)
        exact ⟨rfl, rfl⟩
      · rintro ⟨rfl, rfl⟩
        rfl
  | cons letter word ih =>
      rw [Spells, List.forall₂_cons_left_iff]
      constructor
      · intro h
        cases s with
        | nil => cases h
        | cons c r =>
            rw [dropWord?] at h
            split_ifs at h with hc
            obtain ⟨p, hp, heq⟩ := Option.map_eq_some_iff.1 h
            obtain ⟨rfl, rfl⟩ := Prod.mk.inj heq
            obtain ⟨hword, rfl⟩ := ih.1 hp
            exact ⟨⟨c, p.1, hc, hword, rfl⟩, rfl⟩
      · rintro ⟨⟨c, tail, hc, hword, rfl⟩, rfl⟩
        rw [List.cons_append, dropWord?, if_pos hc, ih.2 ⟨hword, rfl⟩]
        rfl

theorem Spells.exists_mem {word s : Text} {c : Char} (h : word.Spells s) (hc : c ∈ s) :
    ∃ letter ∈ word, isCaseOf letter c = true := by
  rw [Spells] at h
  induction h with
  | nil => cases hc
  | cons hcase _ ih =>
      rcases List.mem_cons.1 hc with rfl | hrest
      · exact ⟨_, List.mem_cons_self, hcase⟩
      · obtain ⟨letter, hmem, hletter⟩ := ih hrest
        exact ⟨letter, List.mem_cons_of_mem _ hmem, hletter⟩

private theorem atWordEnd_append_cons (a r : Text) (c : Char) :
    atWordEnd (a ++ c :: r) = atWordEnd (a ++ [c]) := by
  cases a <;> rfl

private theorem eq_of_lowerSingle_eq_bracket {c : Char} (h : lowerSingle c = '<') : c = '<' := by
  have hcapitals : ∀ n < 91, 65 ≤ n → Char.ofNat (n + 32) ≠ '<' := by decide
  rw [lowerSingle] at h
  split_ifs at h with hdotted
  · cases h
  · rw [lowerChar] at h
    split_ifs at h with hkelvin hcapital
    · cases h
    · exact absurd h (hcapitals c.toNat (Nat.lt_succ_of_le hcapital.2) hcapital.1)
    · exact h

private theorem bracket_not_mem_of_sameLetters {s t : Text} (h : sameLetters s t = true)
    (hs : '<' ∉ s) : '<' ∉ t := by
  intro ht
  have hmap : s.map lowerSingle = t.map lowerSingle := eq_of_beq h
  have hmem : lowerSingle '<' ∈ s.map lowerSingle := hmap ▸ List.mem_map_of_mem ht
  obtain ⟨c, hc, heq⟩ := List.mem_map.1 hmem
  exact hs (eq_of_lowerSingle_eq_bracket heq ▸ hc)

end Text

namespace Html.RawText

/-! ### Tags -/

/-- The name of a script or style element. -/
def IsName (name : Text) : Prop :=
  Text.Spells "script".toList name ∨ Text.Spells "style".toList name

/-- A start tag: nothing that continues the name stands behind it, and the next bracket closes the
tag, wherever it is. -/
def IsOpening (name opening : Text) : Prop :=
  IsName name ∧ ∃ attributes, opening = '<' :: (name ++ (attributes ++ ['>'])) ∧
    '>' ∉ attributes ∧ Text.atWordEnd (attributes ++ ['>']) = true

/-- An end tag of a name: only blanks may stand behind the letters. -/
def IsClosing (name closing : Text) : Prop :=
  ∃ again blanks, closing = '<' :: '/' :: (again ++ (blanks ++ ['>'])) ∧
    Text.sameLetters name again = true ∧ ∀ c ∈ blanks, Text.isBlank c = true

theorem IsName.bracket_not_mem {name : Text} (h : IsName name) : '<' ∉ name := by
  intro hmem
  have hno : ∀ letter ∈ "script".toList ++ "style".toList,
      Text.isCaseOf letter '<' = false := by decide
  obtain ⟨letter, hletter, hcase⟩ : ∃ letter ∈ "script".toList ++ "style".toList,
      Text.isCaseOf letter '<' = true := by
    rcases h with h | h
    · obtain ⟨letter, hletter, hcase⟩ := h.exists_mem hmem
      exact ⟨letter, List.mem_append_left _ hletter, hcase⟩
    · obtain ⟨letter, hletter, hcase⟩ := h.exists_mem hmem
      exact ⟨letter, List.mem_append_right _ hletter, hcase⟩
  rw [hno letter hletter] at hcase
  cases hcase

theorem dropName?_eq_some_iff {s name rest : Text} :
    dropName? s = some (name, rest) ↔
      IsName name ∧ s = name ++ rest ∧ Text.atWordEnd rest = true := by
  -- No text spells both words, as they differ in their second letters.
  have hother (h : Text.Spells "style".toList name) :
      Text.dropWord? "script".toList (name ++ rest) = none := by
    obtain ⟨a, tail, -, htail, rfl⟩ := List.forall₂_cons_left_iff.1 h
    obtain ⟨b, tail, hb, -, rfl⟩ := List.forall₂_cons_left_iff.1 htail
    have hletter : Text.lowerSingle b = 't' := by
      have hcase : Text.isCaseOf 't' b = true := hb
      simpa [Text.isCaseOf] using hcase
    simp [Text.dropWord?, Text.isCaseOf, hletter]
  rw [dropName?, Option.filter_eq_some_iff, Option.orElse_eq_orElse, Option.orElse_eq_or,
    Option.or_eq_some_iff]
  constructor
  · rintro ⟨h | ⟨-, h⟩, hend⟩
    · obtain ⟨hname, hs⟩ := Text.dropWord?_eq_some_iff.1 h
      exact ⟨.inl hname, hs, hend⟩
    · obtain ⟨hname, hs⟩ := Text.dropWord?_eq_some_iff.1 h
      exact ⟨.inr hname, hs, hend⟩
  · rintro ⟨hname | hname, rfl, hend⟩
    · exact ⟨.inl (Text.dropWord?_eq_some_iff.2 ⟨hname, rfl⟩), hend⟩
    · exact ⟨.inr ⟨hother hname, Text.dropWord?_eq_some_iff.2 ⟨hname, rfl⟩⟩, hend⟩

theorem opening?_eq_some_iff {s opening name rest : Text} :
    opening? s = some (opening, name, rest) ↔ IsOpening name opening ∧ s = opening ++ rest := by
  constructor
  · intro h
    unfold opening? at h
    split at h
    · obtain ⟨named, hnamed, hmap⟩ := Option.bind_eq_some_iff.1 h
      obtain ⟨cut, hcut, heq⟩ := Option.map_eq_some_iff.1 hmap
      obtain ⟨rfl, hpair⟩ := Prod.mk.inj heq
      obtain ⟨rfl, rfl⟩ := Prod.mk.inj hpair
      obtain ⟨hname, rfl, hend⟩ := dropName?_eq_some_iff.1 hnamed
      have hbehind := Text.eq_of_cutAfter? hcut
      rw [hbehind, Text.atWordEnd_append_cons] at hend
      refine ⟨⟨hname, cut.1, by simp, Text.not_mem_of_cutAfter? hcut, hend⟩, ?_⟩
      rw [hbehind]
      simp
    · cases h
  · rintro ⟨⟨hname, attributes, rfl, hattributes, hend⟩, rfl⟩
    have hnamed : dropName? (name ++ (attributes ++ '>' :: rest)) =
        some (name, attributes ++ '>' :: rest) :=
      dropName?_eq_some_iff.2 ⟨hname, rfl, by rwa [Text.atWordEnd_append_cons]⟩
    have hcut := Text.cutAfter?_append hattributes rest
    simp [opening?, hnamed, hcut]

theorem closing?_eq_some_iff {name s closing rest : Text} :
    closing? name s = some (closing, rest) ↔ IsClosing name closing ∧ s = closing ++ rest := by
  constructor
  · intro h
    refine ⟨?_, eq_of_closing? h⟩
    unfold closing? at h
    split at h
    · split_ifs at h with hletters
      split at h
      · obtain ⟨rfl, -⟩ := Prod.mk.inj (Option.some.inj h)
        exact ⟨_, _, List.append_assoc _ _ _, hletters, fun c => List.mem_takeWhile_imp⟩
      · cases h
    · cases h
  · rintro ⟨⟨again, blanks, rfl, hletters, hblanks⟩, rfl⟩
    have hlength : again.length = name.length := by
      have hmap : name.map Text.lowerSingle = again.map Text.lowerSingle := eq_of_beq hletters
      simpa using (congrArg List.length hmap).symm
    have hbracket : Text.isBlank '>' = false := rfl
    obtain ⟨htake, hdrop⟩ := Text.takeWhile_dropWhile_append_cons hblanks hbracket rest
    simp [closing?, ← hlength, hletters, htake, hdrop]

theorem IsClosing.closing?_append {name closing : Text} (h : IsClosing name closing) (rest : Text) :
    closing? name (closing ++ rest) = some (closing, rest) :=
  closing?_eq_some_iff.2 ⟨h, rfl⟩

/-- Only the first character of an end tag opens a bracket. -/
theorem IsClosing.exists_tail {name closing : Text} (h : IsClosing name closing)
    (hname : '<' ∉ name) : ∃ tail, closing = '<' :: tail ∧ '<' ∉ tail := by
  obtain ⟨again, blanks, rfl, hletters, hblanks⟩ := h
  refine ⟨_, rfl, ?_⟩
  have hagain := Text.bracket_not_mem_of_sameLetters hletters hname
  have hblank : '<' ∉ blanks := fun hmem => absurd (hblanks _ hmem) (by decide)
  simp [hagain, hblank]

/-- An end tag that begins in front of another one ends there too. -/
theorem IsClosing.isPrefix_of_isPrefix_append {name tag closing body rest : Text}
    (hname : '<' ∉ name) (htag : IsClosing name tag) (hclosing : IsClosing name closing)
    (hbody : body ≠ []) (h : tag <+: body ++ (closing ++ rest)) : tag <+: body := by
  rcases Text.prefix_append_cases h with hwithin | ⟨beyond, hbeyond, hfront, heq⟩
  · exact hwithin
  · obtain ⟨c, body, rfl⟩ := List.exists_cons_of_ne_nil hbody
    obtain ⟨d, beyond, rfl⟩ := List.exists_cons_of_ne_nil hbeyond
    obtain ⟨tail, rfl, htail⟩ := htag.exists_tail hname
    obtain ⟨letters, rfl, -⟩ := hclosing.exists_tail hname
    obtain ⟨-, rfl⟩ := List.cons.inj heq
    obtain ⟨rfl, -⟩ := List.cons_prefix_cons.1 hfront
    simp at htail

theorem cutClosing?_append {name body closing : Text} (hname : '<' ∉ name)
    (hclosing : IsClosing name closing) (hbody : ∀ tag, IsClosing name tag → ¬tag <:+: body)
    (rest : Text) : cutClosing? name (body ++ (closing ++ rest)) = some (body, closing, rest) := by
  induction body with
  | nil =>
      have hfront := hclosing.closing?_append rest
      obtain ⟨tail, rfl, -⟩ := hclosing.exists_tail hname
      rw [List.cons_append] at hfront
      rw [List.nil_append, List.cons_append, cutClosing?, hfront]
  | cons c body ih =>
      have hnone : closing? name (c :: (body ++ (closing ++ rest))) = none := by
        by_contra hsome
        obtain ⟨⟨tag, behind⟩, hcut⟩ := Option.ne_none_iff_exists'.1 hsome
        obtain ⟨htag, heq⟩ := closing?_eq_some_iff.1 hcut
        have hwithin : tag <+: c :: body :=
          htag.isPrefix_of_isPrefix_append hname hclosing (List.cons_ne_nil c body) ⟨behind, heq.symm⟩
        exact hbody tag htag hwithin.isInfix
      have hbehind := ih fun tag htag hinfix => hbody tag htag (List.infix_cons hinfix)
      rw [List.cons_append, cutClosing?, hnone, hbehind]
      rfl

theorem cutClosing?_eq_some_iff {name s body closing rest : Text} (hname : '<' ∉ name) :
    cutClosing? name s = some (body, closing, rest) ↔
      IsClosing name closing ∧ (∀ tag, IsClosing name tag → ¬tag <:+: body) ∧
        s = body ++ (closing ++ rest) := by
  constructor
  · intro h
    induction s generalizing body with
    | nil => cases h
    | cons c r ih =>
        rw [cutClosing?] at h
        split at h
        · next tag behind htag =>
          obtain ⟨rfl, rfl, rfl⟩ : [] = body ∧ tag = closing ∧ behind = rest := by simpa using h
          obtain ⟨hclosing, heq⟩ := closing?_eq_some_iff.1 htag
          refine ⟨hclosing, fun other hother hinfix => ?_, heq⟩
          obtain ⟨tail, rfl, -⟩ := hother.exists_tail hname
          cases List.infix_nil.1 hinfix
        · next hnone =>
          obtain ⟨p, hp, heq⟩ := Option.map_eq_some_iff.1 h
          obtain ⟨rfl, hpair⟩ := Prod.mk.inj heq
          obtain ⟨hclosing, hfirst, rfl⟩ := ih (hp.trans (by rw [← hpair]))
          refine ⟨hclosing, fun tag htag hinfix => ?_, rfl⟩
          rcases List.infix_cons_iff.1 hinfix with ⟨behind, hbehind⟩ | hwithin
          · rw [← List.cons_append, ← hbehind, List.append_assoc, htag.closing?_append] at hnone
            cases hnone
          · exact hfirst tag htag hwithin
  · rintro ⟨hclosing, hbody, rfl⟩
    exact cutClosing?_append hname hclosing hbody rest

/-! ### Elements -/

/-- A script or style element reaches to the first end tag of its name. -/
def IsElement (e : RawText) : Prop :=
  ∃ name, IsOpening name e.opening ∧ IsClosing name e.closing ∧
    ∀ tag, IsClosing name tag → ¬tag <:+: e.body

theorem match?_eq_some_iff {s rest : Text} {e : RawText} :
    match? s = some (e, rest) ↔ e.IsElement ∧ s = e.text ++ rest := by
  constructor
  · intro h
    obtain ⟨o, ho, hmap⟩ := Option.bind_eq_some_iff.1 h
    obtain ⟨p, hcut, heq⟩ := Option.map_eq_some_iff.1 hmap
    obtain ⟨rfl, rfl⟩ := Prod.mk.inj heq
    obtain ⟨hopening, rfl⟩ := opening?_eq_some_iff.1 ho
    obtain ⟨hclosing, hbody, heq⟩ := (cutClosing?_eq_some_iff hopening.1.bracket_not_mem).1 hcut
    exact ⟨⟨o.2.1, hopening, hclosing, hbody⟩, by simp [text, heq]⟩
  · rintro ⟨⟨name, hopening, hclosing, hbody⟩, rfl⟩
    have hfront : opening? (e.opening ++ (e.body ++ (e.closing ++ rest))) =
        some (e.opening, name, e.body ++ (e.closing ++ rest)) :=
      opening?_eq_some_iff.2 ⟨hopening, rfl⟩
    have hcut := cutClosing?_append hopening.1.bracket_not_mem hclosing hbody rest
    rw [text, List.append_assoc, List.append_assoc, match?, hfront, Option.bind_some, hcut]
    rfl

/-! ### Readings -/

/-- A stretch can stand in front of a rest: it is a script or style element, or a character at which
none begins. -/
def Stretch.Fits (rest : Text) : Stretch → Prop
  | char c => ∀ e : RawText, e.IsElement → ¬e.text <+: c :: rest
  | element e => e.IsElement

/-- The elements among the stretches of markup are the leftmost ones, and none overlaps another. -/
structure IsReading (markup : Text) (ss : List Stretch) : Prop where
  text_eq : ss.flatMap Stretch.text = markup
  fits : ∀ before stretch after, ss = before ++ stretch :: after →
    stretch.Fits (after.flatMap Stretch.text)

theorem IsElement.match?_append {e : RawText} (h : e.IsElement) (rest : Text) :
    match? (e.text ++ rest) = some (e, rest) :=
  match?_eq_some_iff.2 ⟨h, rfl⟩

theorem match?_eq_none_iff {s : Text} :
    match? s = none ↔ ∀ e : RawText, e.IsElement → ¬e.text <+: s := by
  constructor
  · rintro h e he ⟨rest, rfl⟩
    rw [he.match?_append] at h
    cases h
  · intro h
    by_contra hsome
    obtain ⟨⟨e, rest⟩, hmatch⟩ := Option.ne_none_iff_exists'.1 hsome
    obtain ⟨he, rfl⟩ := match?_eq_some_iff.1 hmatch
    exact h e he (List.prefix_append _ rest)

namespace IsReading

theorem cons_iff {markup : Text} {stretch : Stretch} {ss : List Stretch} :
    IsReading markup (stretch :: ss) ↔
      ∃ rest, markup = stretch.text ++ rest ∧ stretch.Fits rest ∧ IsReading rest ss := by
  constructor
  · intro h
    refine ⟨ss.flatMap Stretch.text, h.text_eq.symm, h.fits [] stretch ss rfl, rfl, ?_⟩
    intro before next after heq
    exact h.fits (stretch :: before) next after (by rw [heq, List.cons_append])
  · rintro ⟨rest, rfl, hfits, h⟩
    refine ⟨by rw [List.flatMap_cons, h.text_eq], fun before next after heq => ?_⟩
    rcases List.cons_eq_append_iff.1 heq with ⟨rfl, heq⟩ | ⟨before, rfl, heq⟩
    · obtain ⟨rfl, rfl⟩ := List.cons.inj heq
      rwa [h.text_eq]
    · exact h.fits before next after (List.cons.inj heq).2

end IsReading

theorem stretches_cons {c : Char} {r : Text} (h : match? (c :: r) = none) :
    stretches (c :: r) = .char c :: stretches r := by
  rw [stretches]
  split
  · next hsome => rw [h] at hsome; cases hsome
  · rfl

theorem IsElement.stretches_append {e : RawText} (h : e.IsElement) (rest : Text) :
    stretches (e.text ++ rest) = .element e :: stretches rest := by
  have hmatch := h.match?_append rest
  rw [stretches]
  split
  · next hsome =>
    rw [hmatch] at hsome
    obtain ⟨rfl, rfl⟩ := Prod.mk.inj (Option.some.inj hsome)
    rfl
  · next hnone =>
    rw [hmatch] at hnone
    cases hnone

theorem isReading_stretches (markup : Text) : IsReading markup (stretches markup) := by
  fun_induction stretches markup with
  | case1 markup e rest hmatch ih =>
      obtain ⟨he, rfl⟩ := match?_eq_some_iff.1 hmatch
      exact IsReading.cons_iff.2 ⟨rest, rfl, he, ih⟩
  | case2 => exact ⟨rfl, by simp⟩
  | case3 c r hmatch ih => exact IsReading.cons_iff.2 ⟨r, rfl, match?_eq_none_iff.1 hmatch, ih⟩

private theorem IsReading.eq_stretches {markup : Text} {ss : List Stretch}
    (h : IsReading markup ss) : ss = stretches markup := by
  induction ss generalizing markup with
  | nil =>
      obtain rfl : [] = markup := h.text_eq
      rw [stretches]
      rfl
  | cons stretch ss ih =>
      obtain ⟨rest, rfl, hfits, hrest⟩ := IsReading.cons_iff.1 h
      rw [ih hrest]
      match stretch with
      | .char c => exact (stretches_cons (match?_eq_none_iff.2 hfits)).symm
      | .element e => exact (IsElement.stretches_append hfits rest).symm

/-- Markup is read in one way only. -/
theorem isReading_iff {markup : Text} {ss : List Stretch} :
    IsReading markup ss ↔ ss = stretches markup := by
  constructor
  · exact IsReading.eq_stretches
  · rintro rfl
    exact isReading_stretches markup

end Html.RawText

end Stencil
