import Stencil.Proofs.Markup

/-!
# Rewriting attributes

Attributes are hidden while markup is minified, and come back in a form of their own: names and
values as they are, a space in front of each attribute, and nothing else between them. The result
is a thinning of the markup, for a value that goes has no placeholder. Hidden attributes do come
back, because a template in which no literal text begins a placeholder has no placeholder for
attributes either.
-/

namespace Stencil

/-- Without the error, a result can be compared by evaluation. -/
theorem eq_ok_of_toOption {ε α : Type} {result : Except ε α} {a : α}
    (h : result.toOption = some a) : result = .ok a := by
  match result with
  | .ok b => exact congrArg Except.ok (Option.some.inj h)
  | .error _ => cases h

namespace Html

open Placeholder Placeholder.Format

namespace Attribute

/-! ### One attribute -/

/-- A value that stands between two quotes of one kind. -/
def IsQuoted (value : Text) : Prop :=
  ∃ quote inner, (quote = '\x22' ∨ quote = '\x27') ∧ quote ∉ inner ∧
    value = quote :: (inner ++ [quote])

/-- A value without quotes goes as far as it can. -/
theorem of_valueAfterEquals? {s value rest : Text} (h : valueAfterEquals? s = some (value, rest)) :
    s = value ++ rest ∧ (IsQuoted value ∨
      (∀ c ∈ value, isBareChar c = true) ∧ ∀ c ∈ rest.head?, isBareChar c = false) := by
  match s with
  | [] => cases h
  | c :: r =>
      rw [valueAfterEquals?] at h
      split_ifs at h with hquote hbare
      · obtain ⟨p, hp, heq⟩ := Option.map_eq_some_iff.1 h
        obtain ⟨rfl, rfl⟩ := Prod.mk.inj heq
        refine ⟨?_, .inl ⟨c, p.1, hquote, Text.not_mem_of_cutAfter? hp, rfl⟩⟩
        rw [Text.eq_of_cutAfter? hp]
        simp
      · obtain ⟨rfl, rfl⟩ := Prod.mk.inj (Option.some.inj h)
        refine ⟨?_, .inr ⟨List.forall_mem_cons.2 ⟨hbare, fun d hd => ?_⟩, fun d => Text.head?_dropWhile⟩⟩
        · rw [List.cons_append, List.takeWhile_append_dropWhile]
        · exact List.mem_takeWhile_imp hd

/-- An equals sign stands between a name and its value, with blanks around it or not. -/
theorem of_value? {s value rest : Text} (h : value? s = some (value, rest)) :
    (∃ before after : Text, (∀ c ∈ before ++ after, Text.isBlank c = true) ∧
      s = before ++ '=' :: (after ++ (value ++ rest))) ∧
    (IsQuoted value ∨ ∀ c ∈ value, isBareChar c = true) := by
  rw [value?] at h
  split at h
  · next r hr =>
      obtain ⟨hrest, hvalue⟩ := of_valueAfterEquals? h
      refine ⟨⟨s.takeWhile Text.isBlank, r.takeWhile Text.isBlank, fun c hc => ?_, ?_⟩,
        hvalue.imp_right And.left⟩
      · rcases List.mem_append.1 hc with hc | hc <;> exact List.mem_takeWhile_imp hc
      · rw [← hrest, Text.trimLeft, List.takeWhile_append_dropWhile, ← hr, Text.trimLeft,
          List.takeWhile_append_dropWhile]
  · cases h

section Parts

variable {f : Format}

private theorem parts_of_valueAfterEquals? (hf : f.IsName) {s value rest : Text}
    (h : valueAfterEquals? s = some (value, rest)) : f.parts s = f.parts value ++ f.parts rest := by
  obtain ⟨rfl, ⟨quote, inner, hquote, -, rfl⟩ | ⟨-, hrest⟩⟩ := of_valueAfterEquals? h
  · have hforeign : f.IsForeign quote := by
      rcases hquote with rfl | rfl <;> exact hf.isForeign (by decide) (by decide)
    have hs : quote :: (inner ++ [quote]) ++ rest = (quote :: inner) ++ quote :: rest := by simp
    rw [hs, ← List.cons_append, parts_around_foreign hforeign, parts_around_foreign hforeign,
      parts_nil]
    simp
  · exact parts_append_of_foreign _ fun d hd => isForeign_of_isBareChar hf (hrest d hd)

theorem parts_trimLeft (hf : f.IsName) (s : Text) :
    f.parts s =
      (s.takeWhile Text.isBlank).map .char ++ f.parts (Text.trimLeft s) := by
  have hletters : ∀ c ∈ s.takeWhile Text.isBlank, Settings.isSmallLetter c = false :=
    fun c hc => not_isSmallLetter_of_isBlank (List.mem_takeWhile_imp hc)
  rw [← parts_chars hf hletters, Text.trimLeft, List.takeWhile_append_dropWhile]

/-- What stands between a name and its value is no part of a placeholder. -/
theorem exists_of_value? (hf : f.IsName) {s value rest : Text} (h : value? s = some (value, rest)) :
    ∃ between : Text, f.parts s =
      between.map .char ++ (f.parts value ++ f.parts rest) := by
  rw [value?] at h
  split at h
  · next r hr =>
      have hparts := parts_of_valueAfterEquals? hf h
      refine ⟨s.takeWhile Text.isBlank ++ '=' :: r.takeWhile Text.isBlank, ?_⟩
      rw [parts_trimLeft hf s, hr, ← List.singleton_append, parts_chars hf (by decide),
        parts_trimLeft hf r, hparts]
      simp
  · cases h

theorem occurs_iff {piece s : Text} : Text.occurs piece s = true ↔ piece <:+: s := by
  induction s with
  | nil => simp [Text.occurs]
  | cons c s ih =>
      rw [Text.occurs, Bool.or_eq_true, List.isPrefixOf_iff_prefix, ih, List.infix_cons_iff]

theorem parts_of_not_mayHoldTag (hf : Endures f) {value : Text} (h : mayHoldTag value = false) :
    f.parts value = value.map .char := by
  rw [mayHoldTag, Bool.or_eq_false_iff] at h
  refine parts_eq_map_char_of_not_holds fun ds hds => ?_
  rw [occurs_iff.2 ((hf.known _ ⟨ds, hds.1, rfl⟩).trans hds.2)] at h
  cases h.2

/-! ### All attributes of a start tag -/

theorem readAll_nil : readAll [] = [] := by
  unfold readAll
  rfl

theorem readAll_cons {c : Char} (h : isNameChar c = false) (r : Text) :
    readAll (c :: r) = readAll r := by
  conv_lhs => unfold readAll
  exact if_neg (by simp [h])

theorem readAll_of_value {c : Char} {r value rest : Text} (hc : isNameChar c = true)
    (h : value? (r.dropWhile isNameChar) = some (value, rest)) :
    readAll (c :: r) = ⟨c :: r.takeWhile isNameChar, some value⟩ :: readAll rest := by
  conv_lhs => unfold readAll
  rw [if_pos hc]
  split
  · next heq =>
      obtain ⟨rfl, rfl⟩ := Prod.mk.inj (Option.some.inj (h.symm.trans heq))
      rfl
  · next heq => exact absurd (h.symm.trans heq) (by simp)

theorem readAll_of_no_value {c : Char} {r : Text} (hc : isNameChar c = true)
    (h : value? (r.dropWhile isNameChar) = none) :
    readAll (c :: r) = ⟨c :: r.takeWhile isNameChar, none⟩ :: readAll (r.dropWhile isNameChar) := by
  conv_lhs => unfold readAll
  rw [if_pos hc]
  split
  · next heq => exact absurd (h.symm.trans heq) (by simp)
  · rfl

/-- Attributes in order, a space in front of each. -/
def spaced (collapse : Bool) (as : List Attribute) : Text := as.flatMap fun a => ' ' :: a.text collapse

theorem spaced_cons (collapse : Bool) (a : Attribute) (as : List Attribute) :
    spaced collapse (a :: as) = ' ' :: (a.text collapse ++ spaced collapse as) := rfl

theorem parts_spaced_cons (hf : f.IsName) (collapse : Bool) (a : Attribute) (as : List Attribute) :
    f.parts (spaced collapse (a :: as)) =
      .char ' ' :: (f.parts (a.text collapse) ++ f.parts (spaced collapse as)) := by
  have hnext : ∀ c ∈ (spaced collapse as).head?, f.IsForeign c := by
    intro c hc
    match as with
    | [] => cases hc
    | a :: as =>
        obtain rfl : ' ' = c := Option.some.inj hc
        exact hf.isForeign (by decide) (by decide)
  rw [← parts_append_of_foreign _ hnext, spaced, List.flatMap_cons, List.cons_append,
    ← List.singleton_append, parts_chars hf (by decide)]
  rfl

theorem text_some (collapse : Bool) (name value : Text) :
    text collapse ⟨name, some value⟩ =
      if collapse && isBoolean name && !mayHoldTag value then name else name ++ '=' :: value :=
  rfl

private theorem parts_name (hf : f.IsName) (c : Char) (r : Text) :
    f.parts (c :: r) =
      f.parts (c :: r.takeWhile isNameChar) ++ f.parts (r.dropWhile isNameChar) := by
  rw [← parts_append_of_foreign _ fun d hd => isForeign_of_isNameChar hf (Text.head?_dropWhile hd),
    List.cons_append, List.takeWhile_append_dropWhile]

/-- Reading attributes and writing them anew is a thinning. What has been passed over since the last
attribute is carried along, until something is written behind it. -/
theorem thinned_readAll (hf : Endures f) (collapse : Bool) (s passed : Text) {e : Char}
    {a b : List Part} (he : isNameChar e = false) (h : Thinned a b) :
    Thinned (passed.map .char ++ (f.parts s ++ .char e :: a))
      (f.parts (spaced collapse (readAll s)) ++ .char e :: b) := by
  have hspace : ∀ c ∈ [' '], isNameChar c = false := by decide
  have hequals : ∀ c ∈ ['='], isNameChar c = false := by decide
  fun_induction readAll s generalizing passed with
  | case1 =>
      have hgap := Thinned.gap (passed ++ [e]) (List.cons_ne_nil e []) (by simpa using he) h
      simpa [spaced] using hgap
  | case2 c r hc value rest hvalue ih =>
      obtain ⟨between, hbetween⟩ := exists_of_value? hf.isName hvalue
      rw [parts_spaced_cons hf.isName, parts_name hf.isName, hbetween, text_some]
      split_ifs with hdrop
      · -- The value goes, and what was passed over with it.
        simp only [Bool.and_eq_true, Bool.not_eq_true'] at hdrop
        rw [parts_of_not_mayHoldTag hf hdrop.2]
        have hrest := (ih (between ++ value)).keepAll
          (f.parts (c :: r.takeWhile isNameChar))
        simpa using Thinned.gap passed (List.cons_ne_nil ' ' []) hspace hrest
      · rw [parts_around_foreign (hf.isName.isForeign (by decide) (by decide))]
        have hvalue := Thinned.gap between (List.cons_ne_nil '=' []) hequals
          ((ih []).keepAll (f.parts value))
        have hname := hvalue.keepAll (f.parts (c :: r.takeWhile isNameChar))
        simpa using Thinned.gap passed (List.cons_ne_nil ' ' []) hspace hname
  | case3 c r hc hvalue ih =>
      have hrest := (ih []).keepAll (f.parts (c :: r.takeWhile isNameChar))
      rw [parts_spaced_cons hf.isName, parts_name hf.isName]
      simpa [text] using Thinned.gap passed (List.cons_ne_nil ' ' []) hspace hrest
  | case4 c r hc ih =>
      have hforeign : f.IsForeign c := isForeign_of_isNameChar hf.isName (by simpa using hc)
      have hskip := parts_around_foreign hforeign [] r
      rw [List.nil_append, parts_nil, List.nil_append] at hskip
      simpa [hskip] using ih (passed ++ [c])

end Parts

theorem spaced_eq (collapse : Bool) {as : List Attribute} (h : as ≠ []) :
    spaced collapse as = ' ' :: [' '].intercalate (as.map (text collapse)) := by
  induction as with
  | nil => exact absurd rfl h
  | cons a as ih =>
      match as with
      | [] => simp [spaced]
      | b :: as =>
          have ih := ih (by simp)
          rw [spaced] at ih ⊢
          rw [List.flatMap_cons, ih]
          simp [List.intercalate]

end Attribute

/-! ### All start tags -/

theorem StartTag.exists_ending (closed : Bool) :
    ∃ e tail, ending closed = e :: tail ∧ Attribute.isNameChar e = false := by
  cases closed
  · exact ⟨'>', [], rfl, rfl⟩
  · exact ⟨'/', ['>'], rfl, rfl⟩

theorem StartTag.withAttributes_attributeText (collapse : Bool) (t : StartTag)
    (h : t.hasAttributes = true) :
    t.withAttributes (t.attributeText collapse) =
      '<' :: t.name ++ (Attribute.spaced collapse (Attribute.readAll t.attributes)
        ++ ending t.closed) := by
  have hne : Attribute.readAll t.attributes ≠ [] := by simpa [hasAttributes] using h
  rw [Attribute.spaced_eq collapse hne]
  simp [withAttributes, attributeText]

private theorem StartTag.head?_spaced {collapse : Bool} {t : StartTag}
    (h : t.hasAttributes = true) :
    (Attribute.spaced collapse (Attribute.readAll t.attributes)).head? = some ' ' := by
  have hne : Attribute.readAll t.attributes ≠ [] := by simpa [hasAttributes] using h
  rw [Attribute.spaced_eq collapse hne]
  rfl

theorem StartTag.exists_of_match? {s rest : Text} {t : StartTag} (h : match? s = some (t, rest)) :
    ∃ c list r, t.attributes = c :: list ∧ Text.isBlank c = true ∧
      cutEnd? r = some (list, t.closed, rest) := by
  unfold match? at h
  split at h
  · split at h
    · simp only [matchName?] at h
      split at h
      · cases h
      · split at h
        · next hblank =>
            obtain ⟨p, hp, heq⟩ := Option.map_eq_some_iff.1 h
            obtain ⟨rfl, rfl⟩ := Prod.mk.inj heq
            exact ⟨_, _, _, rfl, hblank, hp⟩
        · cases h
    · cases h
  · cases h

namespace Markup

/-- Markup with its attributes written anew. -/
def tidy (collapse : Bool) : List Markup → Text
  | [] => []
  | .char c :: ms => c :: tidy collapse ms
  | .tag t :: ms =>
    if t.hasAttributes then t.withAttributes (t.attributeText collapse) ++ tidy collapse ms
    else t.text ++ tidy collapse ms

theorem tidy_append (collapse : Bool) (ms ns : List Markup) :
    tidy collapse (ms ++ ns) = tidy collapse ms ++ tidy collapse ns := by
  induction ms with
  | nil => rfl
  | cons m ms ih =>
      match m with
      | .char c => exact congrArg _ ih
      | .tag t =>
          rw [List.cons_append, tidy, tidy, ih]
          split_ifs <;> simp

/-- A blank stands in front of the attributes of a start tag. -/
def HasBlank : Markup → Prop
  | .char _ => True
  | .tag t => ∃ c list, t.attributes = c :: list ∧ Text.isBlank c = true

theorem exists_match?_of_mem_ofText {s : Text} {t : StartTag} (h : .tag t ∈ ofText s) :
    ∃ u rest, StartTag.match? u = some (t, rest) := by
  fun_induction ofText s with
  | case1 s u rest hmatch ih =>
      rcases List.mem_cons.1 h with heq | hrest
      · obtain rfl := Markup.tag.inj heq
        exact ⟨s, rest, hmatch⟩
      · exact ih hrest
  | case2 => cases h
  | case3 c r hmatch ih => exact ih ((List.mem_cons.1 h).resolve_left (by simp))

theorem hasBlank_of_mem_ofText {s : Text} {m : Markup} (h : m ∈ ofText s) : m.HasBlank := by
  match m with
  | .char c => trivial
  | .tag t =>
      obtain ⟨u, rest, hmatch⟩ := exists_match?_of_mem_ofText h
      obtain ⟨c, list, r, hlist, hblank, -⟩ := StartTag.exists_of_match? hmatch
      exact ⟨c, list, hlist, hblank⟩

theorem thinned_tidy {f : Format} (hf : Endures f) (collapse : Bool) {ms : List Markup}
    (hms : ∀ m ∈ ms, m.HasBlank) (x : Text) :
    Thinned (f.parts (x ++ ms.flatMap text)) (f.parts (x ++ tidy collapse ms)) := by
  induction ms generalizing x with
  | nil => exact .refl _
  | cons m ms ih =>
      obtain ⟨hm, hrest⟩ := List.forall_mem_cons.1 hms
      match m with
      | .char c =>
          have hthinned := ih hrest (x ++ [c])
          rwa [List.append_assoc, List.append_assoc] at hthinned
      | .tag t =>
          rw [List.flatMap_cons, tidy]
          split_ifs with hattributes
          · obtain ⟨c, list, hlist, hblank⟩ := hm
            obtain ⟨e, tail, hending, he⟩ := StartTag.exists_ending t.closed
            have hwithin := t.withAttributes_attributeText collapse hattributes
            have hbefore (rest : Text) : x ++ (t.text ++ rest) =
                (x ++ '<' :: t.name) ++ (t.attributes ++ e :: (tail ++ rest)) := by
              simp [StartTag.text, hending]
            have hafter (rest : Text) : x ++ (t.withAttributes (t.attributeText collapse) ++ rest) =
                (x ++ '<' :: t.name) ++ (Attribute.spaced collapse (Attribute.readAll t.attributes)
                  ++ e :: (tail ++ rest)) := by
              simp [hwithin, hending]
            have hblank : ∀ d ∈ t.attributes.head?, f.IsForeign d := by
              intro d hd
              rw [hlist] at hd
              rw [← Option.some.inj hd]
              exact isForeign_of_isBlank hf.isName hblank
            have hspace : ∀ d ∈ (Attribute.spaced collapse
                (Attribute.readAll t.attributes)).head?, f.IsForeign d := by
              intro d hd
              rw [StartTag.head?_spaced hattributes] at hd
              rw [← Option.some.inj hd]
              exact hf.isName.isForeign (by decide) (by decide)
            have hforeign := isForeign_of_isNameChar hf.isName he
            change Thinned (f.parts (x ++ (t.text ++ _))) _
            rw [hbefore, hafter, parts_around_list hforeign hblank, parts_around_list hforeign hspace]
            exact (Attribute.thinned_readAll hf collapse t.attributes [] he (ih hrest tail)).keepAll _
          · have hthinned := ih hrest (x ++ t.text)
            rwa [List.append_assoc, List.append_assoc] at hthinned

/-! ### Attributes come back -/

theorem attributed_tag (t : StartTag) (ms : List Markup) :
    attributed (.tag t :: ms) = if t.hasAttributes then t :: attributed ms else attributed ms := by
  cases h : t.hasAttributes <;> simp [attributed, h]

theorem length_attributed_le (ms : List Markup) :
    (attributed ms).length ≤ (ms.flatMap text).count '<' := by
  induction ms with
  | nil => exact Nat.le_refl 0
  | cons m ms ih =>
      rw [List.flatMap_cons, List.count_append]
      match m with
      | .char c => exact ih.trans (Nat.le_add_left _ _)
      | .tag t =>
          have hone : 1 ≤ (Markup.tag t).text.count '<' :=
            List.count_pos_iff.2 (by simp [text, StartTag.text])
          have hlength : (attributed (.tag t :: ms)).length ≤ (attributed ms).length + 1 := by
            rw [attributed_tag]
            split_ifs
            · exact Nat.le_refl _
            · exact Nat.le_succ _
          omega

variable {g : Format} {kept : List Text} {collapse : Bool}

/-- The characters and placeholders of markup whose attributes are hidden. -/
def hiddenParts : Nat → List Markup → List Part
  | _, [] => []
  | n, .char c :: ms => .char c :: hiddenParts n ms
  | n, .tag t :: ms =>
    if t.hasAttributes then
      ('<' :: t.name ++ [' ']).map .char ++
        .hole (Text.ofNat n) :: ((StartTag.ending t.closed).map .char ++ hiddenParts (n + 1) ms)
    else t.text.map .char ++ hiddenParts n ms

/-- Hidden attributes are read as placeholders, and all else as characters, if the markup has no
such placeholder. -/
theorem parts_hideAttributes (hg : g.IsClear) (hspace : g.IsForeign ' ') {n : Nat}
    {ms : List Markup} {x : Text} (hplain : ∀ ds, ¬g.Holds (x ++ ms.flatMap text) ds) :
    g.parts (x ++ hideAttributes g n ms) = x.map .char ++ hiddenParts n ms := by
  induction ms generalizing n x with
  | nil =>
      rw [List.flatMap_nil, List.append_nil] at hplain
      rw [hideAttributes, hiddenParts, List.append_nil, List.append_nil,
        parts_eq_map_char_of_not_holds hplain]
  | cons m ms ih =>
      match m with
      | .char c =>
          have hrest := ih (n := n) (x := x ++ [c]) (by simpa [text] using hplain)
          rwa [List.append_assoc, List.map_append, List.append_assoc] at hrest
      | .tag t =>
          rw [hideAttributes, hiddenParts]
          split_ifs with hattributes
          · have hbefore (w rest : Text) : x ++ (t.withAttributes w ++ rest) =
                (x ++ ('<' :: t.name ++ [' '])) ++ (w ++ (StartTag.ending t.closed ++ rest)) := by
              simp [StartTag.withAttributes]
            have htext : x ++ (Markup.tag t :: ms).flatMap text = (x ++ '<' :: t.name)
                ++ (t.attributes ++ (StartTag.ending t.closed ++ ms.flatMap text)) := by
              simp [text, StartTag.text]
            rw [htext] at hplain
            have hfront (ds : Text) : ¬g.Holds (x ++ ('<' :: t.name ++ [' '])) ds := by
              -- The space is new in this place, but no placeholder has one.
              rintro ⟨hds, hwithin⟩
              have hplaceholder : g.IsPlaceholder (g.partText (.hole ds)) := ⟨ds, hds, rfl⟩
              rw [← List.append_assoc] at hwithin
              rcases Text.isInfix_or_of_not_mem (hspace.not_mem hplaceholder) hwithin with hx | hnil
              · exact hplain ds ⟨hds, hx.trans (List.prefix_append _ _).isInfix⟩
              · exact hplaceholder.ne_nil (List.eq_nil_of_infix_nil hnil)
            have hend (ds : Text) : ¬g.Holds (StartTag.ending t.closed ++ ms.flatMap text) ds :=
              fun hwithin => hplain ds (hwithin.mono
                ((List.suffix_append _ _).trans (List.suffix_append _ _)).isInfix)
            rw [hbefore, make_eq, hg.parts_around (isNumeral_ofNat n),
              parts_eq_map_char_of_not_holds hfront, ih hend, List.map_append, List.append_assoc]
          · have hrest := ih (n := n) (x := x ++ t.text) (by simpa [text] using hplain)
            rwa [List.append_assoc, List.map_append, List.append_assoc] at hrest

private theorem flatMap_filled_hiddenParts {n : Nat} {ms : List Markup}
    (hkept : kept.drop n = (attributed ms).map (StartTag.attributeText collapse)) :
    (hiddenParts n ms).flatMap (g.filled kept) = tidy collapse ms := by
  induction ms generalizing n with
  | nil => rfl
  | cons m ms ih =>
      match m with
      | .char c => exact congrArg _ (ih hkept)
      | .tag t =>
          rw [hiddenParts, tidy]
          rw [attributed_tag] at hkept
          split_ifs at hkept ⊢ with hattributes
          · obtain ⟨hhead, htail⟩ := of_drop_eq_cons hkept
            rw [List.flatMap_append, List.flatMap_cons, List.flatMap_append, ih htail,
              flatMap_filled_map_char, flatMap_filled_map_char, filled_ofNat hhead]
            simp [StartTag.withAttributes]
          · rw [List.flatMap_append, flatMap_filled_map_char, ih hkept]

theorem digits_hiddenParts (n : Nat) (ms : List Markup) :
    (hiddenParts n ms).filterMap Part.digits? =
      (List.range' n (attributed ms).length).map Text.ofNat := by
  induction ms generalizing n with
  | nil => rfl
  | cons m ms ih =>
      match m with
      | .char c => exact ih n
      | .tag t =>
          rw [hiddenParts, attributed_tag]
          split_ifs with hattributes
          · rw [List.filterMap_append, filterMap_map_char, List.nil_append, List.length_cons,
              List.range'_succ, List.map_cons, ← ih (n + 1)]
            change Text.ofNat n :: (List.filterMap _ _) = _
            rw [List.filterMap_append, filterMap_map_char, List.nil_append]
          · rw [List.filterMap_append, filterMap_map_char, List.nil_append, ih n]

end Markup

theorem hasPair_attributes : attributeFormat.HasPair 't' 'e' :=
  ⟨⟨'-', "ph".toList, rfl, by decide⟩, ⟨_, rfl, by decide, by decide⟩, by decide, by decide⟩

theorem parts_protectAttributes (collapse : Bool) {s : Text}
    (hplain : ∀ ds, ¬attributeFormat.Holds s ds) :
    attributeFormat.parts (protectAttributes attributeFormat collapse s).text =
      Markup.hiddenParts 0 (Markup.ofText s) := by
  rw [← Markup.flatMap_text_ofText s, ← List.nil_append (List.flatMap _ _)] at hplain
  exact Markup.parts_hideAttributes hasPair_attributes.isClear (by decide) hplain

theorem restore_protectAttributes_eq_ok_iff (collapse : Bool) {s : Text}
    (hplain : ∀ ds, ¬attributeFormat.Holds s ds) (restored : Text) :
    attributeFormat.restore (protectAttributes attributeFormat collapse s).kept
        (protectAttributes attributeFormat collapse s).text = .ok restored ↔
      (Markup.attributed (Markup.ofText s)).length ≤ 10 ^ maxDigits ∧
        restored = Markup.tidy collapse (Markup.ofText s) := by
  have hkept : (protectAttributes attributeFormat collapse s).kept.drop 0 =
      (Markup.attributed (Markup.ofText s)).map (StartTag.attributeText collapse) := rfl
  have hfilled := Markup.flatMap_filled_hiddenParts (g := attributeFormat) hkept
  have hholes (ds : Text) : .hole ds ∈ Markup.hiddenParts 0 (Markup.ofText s) ↔
      ∃ k < (Markup.attributed (Markup.ofText s)).length, Text.ofNat k = ds := by
    rw [← mem_digits_iff, Markup.digits_hiddenParts, ← List.range_eq_range', List.mem_map]
    simp only [List.mem_range]
  rw [restore, parts_protectAttributes collapse hplain]
  constructor
  · intro hrestored
    refine ⟨?_, (eq_of_fillAll_eq_ok hrestored).trans hfilled⟩
    by_contra hlong
    have hlast := (hholes _).2 ⟨10 ^ maxDigits, not_le.1 hlong, rfl⟩
    have hlength := length_le_of_fillAll_eq_ok hrestored hlast
    exact absurd ((Text.length_ofNat_le_iff (by decide)).1 hlength) (lt_irrefl _)
  · rintro ⟨hcount, rfl⟩
    rw [fillAll_eq_ok]
    · exact congrArg Except.ok hfilled
    · intro ds hds
      obtain ⟨k, hk, rfl⟩ := (hholes ds).1 hds
      exact (Text.length_ofNat_le_iff (by decide)).2 (by omega)

end Html

end Stencil
