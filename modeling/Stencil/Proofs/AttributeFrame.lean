import Stencil.Proofs.Tidiness

/-!
# What hiding attributes leaves alone

Markup whose attributes are hidden has one placeholder for each start tag with attributes, numbered
in their order. Putting the attributes back changes these start tags only, and of each only what
stands between its name and its end. Nothing is changed at all exactly if each of these lists is
written as attributes with a space in front of each: such a list is read as these attributes, and
whatever is written anew is such a list.
-/

namespace Stencil

open Placeholder Placeholder.Format

/-! ### The placeholders that are found -/

namespace Placeholder.Format

theorem map_text_locate (f : Format) (place : Nat) (ps : List Part) :
    (f.locate place ps).map Found.text =
      (ps.filterMap Part.digits?).map fun ds => f.partText (.hole ds) := by
  induction ps generalizing place with
  | nil => rfl
  | cons p ps ih =>
      match p with
      | .char c => exact ih (place + 1)
      | .hole ds => exact congrArg _ (ih _)

end Placeholder.Format

namespace Html

namespace Attribute

/-! ### Attributes as they are written -/

/-- A value in quotes, or a value that needs none. -/
def IsValue (value : Text) : Prop :=
  IsQuoted value ∨ value ≠ [] ∧ ∀ c ∈ value, isBareChar c = true

/-- An attribute of the characters that are read as its name and its value. -/
structure IsWritten (a : Attribute) : Prop where
  name_ne_nil : a.name ≠ []
  isNameChar_of_mem : ∀ c ∈ a.name, isNameChar c = true
  isValue : ∀ value ∈ a.value, IsValue value

private theorem isBlank_of_isBareChar {c : Char} (h : isBareChar c = true) :
    Text.isBlank c = false := by
  by_contra hblank
  rw [Bool.not_eq_false] at hblank
  simp [isBareChar, hblank] at h

private theorem head?_value {value : Text} (h : IsValue value) :
    ∃ c v, value = c :: v ∧ Text.isBlank c = false := by
  rcases h with ⟨quote, inner, hquote, -, rfl⟩ | ⟨hne, hbare⟩
  · refine ⟨quote, _, rfl, ?_⟩
    rcases hquote with rfl | rfl <;> rfl
  · obtain ⟨c, v, rfl⟩ := List.exists_cons_of_ne_nil hne
    exact ⟨c, v, rfl, isBlank_of_isBareChar (hbare c List.mem_cons_self)⟩

theorem valueAfterEquals?_append {value rest : Text} (h : IsValue value)
    (hrest : ∀ c ∈ rest.head?, isBareChar c = false) :
    valueAfterEquals? (value ++ rest) = some (value, rest) := by
  rcases h with ⟨quote, inner, hquote, hinner, rfl⟩ | ⟨hne, hbare⟩
  · rw [List.cons_append, List.append_assoc, valueAfterEquals?, if_pos hquote,
      List.singleton_append, Text.cutAfter?_append hinner]
    rfl
  · obtain ⟨c, v, rfl⟩ := List.exists_cons_of_ne_nil hne
    obtain ⟨hc, hv⟩ := List.forall_mem_cons.1 hbare
    have hquote : ¬(c = '\x22' ∨ c = '\x27') := by
      rintro (rfl | rfl) <;> cases hc
    obtain ⟨htake, hdrop⟩ := Text.takeWhile_dropWhile_append hv hrest
    rw [List.cons_append, valueAfterEquals?, if_neg hquote, if_pos hc, htake, hdrop]

theorem value?_equals {value rest : Text} (h : IsValue value)
    (hrest : ∀ c ∈ rest.head?, isBareChar c = false) :
    value? ('=' :: (value ++ rest)) = some (value, rest) := by
  obtain ⟨c, v, hvalue, hblank⟩ := head?_value h
  have htrim : Text.trimLeft (value ++ rest) = value ++ rest := by
    rw [hvalue, List.cons_append]
    exact List.dropWhile_cons_of_neg (by simp [hblank])
  change valueAfterEquals? (Text.trimLeft (value ++ rest)) = _
  rw [htrim, valueAfterEquals?_append h hrest]

private theorem not_isBlank_of_isNameChar {c : Char} (h : isNameChar c = true) :
    Text.isBlank c = false := by
  by_contra hblank
  rw [Bool.not_eq_false] at hblank
  rw [isNameChar_of_isBlank hblank] at h
  cases h

private theorem head?_spaced_eq (collapse : Bool) (as : List Attribute) {c : Char}
    (h : c ∈ (spaced collapse as).head?) : c = ' ' := by
  match as with
  | [] => cases h
  | a :: as => exact (Option.some.inj h).symm

private theorem value?_spaced {as : List Attribute} (h : ∀ a ∈ as, a.IsWritten) :
    value? (spaced false as) = none := by
  match as with
  | [] => rfl
  | a :: as =>
      obtain ⟨ha, -⟩ := List.forall_mem_cons.1 h
      obtain ⟨c, name, hname⟩ := List.exists_cons_of_ne_nil ha.name_ne_nil
      have hc := ha.isNameChar_of_mem c (by rw [hname]; exact List.mem_cons_self)
      have htext : ∃ rest, a.text false = c :: rest := by
        rw [text]
        split
        · exact ⟨name, hname⟩
        · rw [Bool.false_and, Bool.false_and, if_neg Bool.false_ne_true, hname]
          exact ⟨_, rfl⟩
      obtain ⟨rest, hrest⟩ := htext
      have htrim : Text.trimLeft (spaced false (a :: as)) = c :: (rest ++ spaced false as) := by
        rw [spaced_cons, hrest, List.cons_append, Text.trimLeft, List.dropWhile_cons_of_pos rfl]
        exact List.dropWhile_cons_of_neg (by simp [not_isBlank_of_isNameChar hc])
      rw [value?, htrim]
      split
      · next heq =>
          obtain ⟨rfl, -⟩ := List.cons.inj heq
          cases hc
      · rfl

/-- Attributes are read back from the list in which they are written. -/
theorem readAll_spaced {as : List Attribute} (h : ∀ a ∈ as, a.IsWritten) :
    readAll (spaced false as) = as := by
  induction as with
  | nil => exact readAll_nil
  | cons a as ih =>
      obtain ⟨ha, has⟩ := List.forall_mem_cons.1 h
      have hnext : ∀ c ∈ (spaced false as).head?, c = ' ' := fun c => head?_spaced_eq false as
      obtain ⟨name, value⟩ := a
      obtain ⟨c, name, rfl⟩ := List.exists_cons_of_ne_nil ha.name_ne_nil
      obtain ⟨hc, hname⟩ := List.forall_mem_cons.1 ha.isNameChar_of_mem
      rw [spaced_cons, readAll_cons (by decide)]
      -- The name ends at the space of the next attribute or at its own equals sign.
      cases value with
      | none =>
          obtain ⟨htake, hdrop⟩ := Text.takeWhile_dropWhile_append hname fun d hd => by
            rw [hnext d hd]
            rfl
          have hvalue : value? ((name ++ spaced false as).dropWhile isNameChar) = none := by
            rw [hdrop]
            exact value?_spaced has
          rw [text, List.cons_append, readAll_of_no_value hc hvalue, htake, hdrop, ih has]
      | some value =>
          have hequals : isNameChar '=' = false := rfl
          obtain ⟨htake, hdrop⟩ :=
            Text.takeWhile_dropWhile_append_cons hname hequals (value ++ spaced false as)
          have hvalue : value? ((name ++ '=' :: (value ++ spaced false as)).dropWhile isNameChar) =
              some (value, spaced false as) := by
            rw [hdrop]
            refine value?_equals (ha.isValue value rfl) fun d hd => ?_
            rw [hnext d hd]
            rfl
          rw [text_some, Bool.false_and, Bool.false_and, if_neg Bool.false_ne_true,
            List.append_assoc, List.cons_append, List.cons_append, readAll_of_value hc hvalue,
            htake, ih has]

private theorem ne_nil_of_valueAfterEquals? {s value rest : Text}
    (h : valueAfterEquals? s = some (value, rest)) : value ≠ [] := by
  match s with
  | [] => cases h
  | c :: r =>
      rw [valueAfterEquals?] at h
      split_ifs at h
      · obtain ⟨p, -, heq⟩ := Option.map_eq_some_iff.1 h
        rw [← (Prod.mk.inj heq).1]
        exact List.cons_ne_nil _ _
      · rw [← (Prod.mk.inj (Option.some.inj h)).1]
        exact List.cons_ne_nil _ _

private theorem isValue_of_value? {s value rest : Text} (h : value? s = some (value, rest)) :
    IsValue value := by
  refine (of_value? h).2.imp_right fun hbare => ⟨?_, hbare⟩
  rw [value?] at h
  split at h
  · exact ne_nil_of_valueAfterEquals? h
  · cases h

/-- What is read is written in a form that can be read. -/
theorem isWritten_of_mem_readAll {s : Text} {a : Attribute} (h : a ∈ readAll s) : a.IsWritten := by
  have hname (c : Char) (r : Text) (hc : isNameChar c = true) :
      ∀ d ∈ c :: r.takeWhile isNameChar, isNameChar d = true :=
    List.forall_mem_cons.2 ⟨hc, fun d hd => List.mem_takeWhile_imp hd⟩
  fun_induction readAll s with
  | case1 => cases h
  | case2 c r hc value rest hvalue ih =>
      rcases List.mem_cons.1 h with rfl | hrest
      · refine ⟨List.cons_ne_nil _ _, hname c r hc, fun v hv => ?_⟩
        obtain rfl := Option.some.inj hv
        exact isValue_of_value? hvalue
      · exact ih hrest
  | case3 c r hc hvalue ih =>
      rcases List.mem_cons.1 h with rfl | hrest
      · exact ⟨List.cons_ne_nil _ _, hname c r hc, fun v hv => by cases hv⟩
      · exact ih hrest
  | case4 c r hc ih => exact ih h

end Attribute

/-- A start tag is tidy exactly if its list is written as attributes with a space in front of
each. -/
theorem StartTag.isTidy_iff {t : StartTag} (h : t.hasAttributes = true) :
    t.IsTidy false ↔ ∃ as, (∀ a ∈ as, Attribute.IsWritten a) ∧
      t.attributes = Attribute.spaced false as := by
  have hlist : t.IsTidy false ↔
      Attribute.spaced false (Attribute.readAll t.attributes) = t.attributes := by
    rw [IsTidy, t.withAttributes_attributeText false h, text, List.append_assoc]
    simp
  rw [hlist]
  constructor
  · intro htidy
    exact ⟨_, fun a => Attribute.isWritten_of_mem_readAll, htidy.symm⟩
  · rintro ⟨as, has, hattributes⟩
    rw [hattributes, Attribute.readAll_spaced has]

private theorem Markup.hasAttributes_of_mem_attributed {ms : List Markup} {t : StartTag}
    (h : t ∈ attributed ms) : t.hasAttributes = true := by
  induction ms with
  | nil => cases h
  | cons m ms ih =>
      match m with
      | .char c => exact ih h
      | .tag u =>
          rw [attributed_tag] at h
          split_ifs at h with hattributes
          · rcases List.mem_cons.1 h with rfl | hrest
            · exact hattributes
            · exact ih hrest
          · exact ih h

/-- Markup without a placeholder for attributes has one for each start tag with attributes once these
are hidden, numbered in order. Putting the attributes back writes these start tags anew and leaves
all else as it is, unless they are so many that their numbers cannot be read. If no values are
dropped, the markup comes back as it was exactly if every list of attributes is written with a space
in front of each attribute and nothing else between them. -/
theorem restore_protectAttributes_frame {collapse : Bool} {s : Text} {hidden : Protected}
    (hplain : ¬"templatize-attrs-".toList <:+: s)
    (hhidden : hidden = protectAttributes attributeFormat collapse s) :
    (attributeFormat.find hidden.text).map Found.text =
        (List.range hidden.kept.length).map (fun k : Nat => attributeFormat.make k) ∧
      ((∃ restored, attributeFormat.restore hidden.kept hidden.text = .ok restored) ↔
        hidden.kept.length ≤ 10 ^ maxDigits) ∧
      ∀ restored, attributeFormat.restore hidden.kept hidden.text = .ok restored →
        restored = Markup.tidy collapse (Markup.ofText s) ∧
        (collapse = false → (restored = s ↔ ∀ t ∈ Markup.attributed (Markup.ofText s),
          ∃ as, (∀ a ∈ as, Attribute.IsWritten a) ∧ t.attributes = Attribute.spaced false as)) := by
  have hnone : ∀ ds, ¬attributeFormat.Holds s ds := fun ds hds => hplain hds.opening_isInfix
  have hrestore := restore_protectAttributes_eq_ok_iff collapse hnone
  have hcount : hidden.kept.length = (Markup.attributed (Markup.ofText s)).length := by
    rw [hhidden, protectAttributes, List.length_map]
  rw [← hhidden] at hrestore
  refine ⟨?_, ⟨?_, fun hle => ?_⟩, fun restored hrestored => ?_⟩
  · rw [Format.find, Format.map_text_locate, hcount, hhidden,
      parts_protectAttributes collapse hnone, Markup.digits_hiddenParts, ← List.range_eq_range', List.map_map]
    rfl
  · rintro ⟨restored, hrestored⟩
    rw [hcount]
    exact ((hrestore restored).1 hrestored).1
  · exact ⟨_, (hrestore _).2 ⟨hcount ▸ hle, rfl⟩⟩
  · obtain ⟨-, rfl⟩ := (hrestore restored).1 hrestored
    refine ⟨rfl, ?_⟩
    rintro rfl
    have htidy : Markup.tidy false (Markup.ofText s) = (Markup.ofText s).flatMap Markup.text ↔
        ∀ t ∈ Markup.attributed (Markup.ofText s), t.IsTidy false :=
      Markup.tidy_eq_flatMap_text_iff fun t => Markup.isInner_of_mem_ofText
    rw [Markup.flatMap_text_ofText] at htidy
    rw [htidy]
    exact forall₂_congr fun t ht => StartTag.isTidy_iff (Markup.hasAttributes_of_mem_attributed ht)

/-- Two lists with a space in front of each attribute come back as they were. -/
theorem restore_protectAttributes_frame_spaced :
    ¬"templatize-attrs-".toList <:+: "<p id='1' hidden>a<i b=c/>".toList ∧
      (attributeFormat.find
          (protectAttributes attributeFormat false "<p id='1' hidden>a<i b=c/>".toList).text).map
            Found.text = ["templatize-attrs-0-ph".toList, "templatize-attrs-1-ph".toList] ∧
      attributeFormat.restore
          (protectAttributes attributeFormat false "<p id='1' hidden>a<i b=c/>".toList).kept
          (protectAttributes attributeFormat false "<p id='1' hidden>a<i b=c/>".toList).text
        = .ok "<p id='1' hidden>a<i b=c/>".toList := by
  have hplain : ¬"templatize-attrs-".toList <:+: "<p id='1' hidden>a<i b=c/>".toList := by decide
  have hkept : (protectAttributes attributeFormat false "<p id='1' hidden>a<i b=c/>".toList).kept
      = ["id='1' hidden".toList, "b=c".toList] := by decide +kernel
  have htags : Markup.attributed (Markup.ofText "<p id='1' hidden>a<i b=c/>".toList) =
      [⟨"p".toList, " id='1' hidden".toList, false⟩, ⟨"i".toList, " b=c".toList, true⟩] := by
    decide +kernel
  have hid : Attribute.IsWritten ⟨"id".toList, some "'1'".toList⟩ := by
    refine ⟨by decide, by decide, fun value hvalue => .inl ?_⟩
    exact ⟨'\x27', "1".toList, .inr rfl, by decide, (Option.some.inj hvalue).symm⟩
  have hhidden : Attribute.IsWritten ⟨"hidden".toList, none⟩ :=
    ⟨by decide, by decide, fun value hvalue => by cases hvalue⟩
  have hb : Attribute.IsWritten ⟨"b".toList, some "c".toList⟩ := by
    refine ⟨by decide, by decide, fun value hvalue => .inr ?_⟩
    obtain rfl := Option.some.inj hvalue
    decide
  obtain ⟨hfind, hok, hback⟩ := restore_protectAttributes_frame hplain
    (Eq.refl (protectAttributes attributeFormat false "<p id='1' hidden>a<i b=c/>".toList))
  have hcount : 2 ≤ 10 ^ maxDigits :=
    (by decide : 2 ≤ 10 ^ 1).trans (Nat.pow_le_pow_right (by decide) (by decide))
  obtain ⟨restored, hrestored⟩ := hok.2 (by rw [hkept]; exact hcount)
  have hsame := ((hback restored hrestored).2 rfl).2
  rw [htags, List.forall_mem_cons, List.forall_mem_singleton] at hsame
  obtain rfl := hsame ⟨⟨[⟨"id".toList, some "'1'".toList⟩, ⟨"hidden".toList, none⟩],
    by simpa using ⟨hid, hhidden⟩, rfl⟩, ⟨[⟨"b".toList, some "c".toList⟩], by simpa using hb, rfl⟩⟩
  refine ⟨hplain, ?_, hrestored⟩
  rw [hfind, hkept]
  decide

end Html

end Stencil
