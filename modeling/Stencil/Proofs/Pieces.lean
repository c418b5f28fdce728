import Mathlib.Data.List.Chain
import Stencil.Proofs.Escape
import Stencil.Template.Piece

/-!
# How a template is cut

The pieces of a text are determined by what stands at its front: a tag, or literal text that the
literal piece after it continues. With `front` and `behind` for that continuation, one law covers
every way in which literal text is put before other text, and the pieces of an escaped template are
the escaped pieces of the template.
-/

namespace Stencil.Piece

/-- The literal text with which the pieces begin. -/
def front : List Piece → Text
  | literal t :: _ => t
  | _ => []

/-- The pieces after the literal text with which they begin. -/
def behind : List Piece → List Piece
  | literal _ :: ps => ps
  | ps => ps

/-- A piece in the form in which it stands between quotes. -/
def escaped : Piece → Piece
  | literal t => literal (Text.escape t)
  | tag inner => tag (Text.escape inner)

@[simp] theorem front_map_escaped (ps : List Piece) :
    front (ps.map escaped) = Text.escape (front ps) := by
  match ps with
  | [] | tag _ :: _ => simp [front, escaped]
  | literal _ :: _ => rfl

@[simp] theorem behind_map_escaped (ps : List Piece) :
    behind (ps.map escaped) = (behind ps).map escaped := by
  match ps with
  | [] | tag _ :: _ | literal _ :: _ => rfl

theorem front_isPrefix (s : Text) : front (ofText s) <+: s := by
  have h := flatMap_text_ofText s
  match hps : ofText s with
  | [] | tag _ :: _ => exact List.nil_prefix
  | literal t :: ps =>
      rw [hps, List.flatMap_cons] at h
      exact ⟨_, h⟩

theorem text_isInfix_of_mem {s : Text} {p : Piece} (h : p ∈ ofText s) : p.text <:+: s := by
  obtain ⟨before, after, heq⟩ := List.append_of_mem h
  have hs := flatMap_text_ofText s
  rw [heq, List.flatMap_append, List.flatMap_cons] at hs
  exact ⟨before.flatMap text, after.flatMap text, by rw [List.append_assoc]; exact hs⟩

theorem isInfix_of_literal_mem {s t : Text} (h : literal t ∈ ofText s) : t <:+: s :=
  text_isInfix_of_mem h

theorem length_tags_tag (inner : Text) (ps : List Piece) :
    (tags (tag inner :: ps)).length = (tags ps).length + 1 := rfl

theorem head?_of_mem_tags {ps : List Piece} {t : Text} (h : t ∈ tags ps) : t.head? = some '{' := by
  obtain ⟨p, -, hp⟩ := List.mem_filterMap.1 h
  match p with
  | literal _ => cases hp
  | tag inner =>
      obtain rfl := Option.some.inj hp
      rfl

theorem consLiteral_eq (c : Char) (ps : List Piece) :
    consLiteral c ps = literal (c :: front ps) :: behind ps := by
  match ps with
  | [] | tag _ :: _ | literal _ :: _ => rfl

/-! ### The pieces of composed text -/

/-- A character is literal text unless it is the first of two opening braces. -/
theorem ofText_cons {c : Char} {r : Text} (h : c = '{' → r.head? ≠ some '{') :
    ofText (c :: r) = literal (c :: front (ofText r)) :: behind (ofText r) := by
  rw [ofText, consLiteral_eq]
  rintro s rfl hs
  exact h rfl (by rw [hs]; rfl)

/-- Text is literal text, whatever follows it, if no two opening braces begin in it. -/
theorem ofText_append_of_not_opening {a : Text} (ha : a ≠ []) (h : ¬opening <:+: a ++ ['{'])
    (r : Text) : ofText (a ++ r) = literal (a ++ front (ofText r)) :: behind (ofText r) := by
  induction a with
  | nil => exact absurd rfl ha
  | cons c a ih =>
      rw [List.cons_append, List.infix_cons_iff, not_or] at h
      match a with
      | [] =>
          refine ofText_cons fun hc => ?_
          subst hc
          exact absurd List.prefix_rfl h.1
      | d :: a =>
          have hpair : c = '{' → (d :: a ++ r).head? ≠ some '{' := by
            rintro rfl hd
            obtain rfl := Option.some.inj hd
            exact h.1 (List.prefix_append opening _)
          rw [List.cons_append, ofText_cons hpair, ih (by simp) h.2]
          rfl

theorem ofText_append {a : Text} (ha : a ≠ []) (hbrace : '{' ∉ a) (r : Text) :
    ofText (a ++ r) = literal (a ++ front (ofText r)) :: behind (ofText r) := by
  refine ofText_append_of_not_opening ha (fun h => hbrace ?_) r
  obtain ⟨before, after, heq⟩ := h
  rcases List.eq_nil_or_concat after with rfl | ⟨after, c, rfl⟩
  · rw [List.append_nil, opening, List.append_cons, List.append_left_inj] at heq
    simp [← heq]
  · rw [List.concat_eq_append, ← List.append_assoc] at heq
    rw [← List.append_inj_left' heq rfl]
    simp [opening]

theorem cutClosing?_cons {c : Char} {r : Text} (h : c = '}' → r.head? ≠ some '}') :
    cutClosing? (c :: r) = (cutClosing? r).map fun p => (c :: p.1, p.2) := by
  rw [cutClosing?]
  rintro s rfl rfl
  exact h rfl rfl

theorem cutClosing?_append {a : Text} (h : '}' ∉ a) (r : Text) :
    cutClosing? (a ++ r) = (cutClosing? r).map fun p => (a ++ p.1, p.2) := by
  induction a with
  | nil => simp
  | cons c a ih =>
      have hc : c ≠ '}' := fun he => h (by simp [he])
      rw [List.cons_append, cutClosing?_cons fun he => absurd he hc,
        ih fun hm => h (List.mem_cons_of_mem _ hm), Option.map_map]
      rfl

theorem cutClosing?_eq_none_iff {s : Text} : cutClosing? s = none ↔ ¬closing <:+: s := by
  fun_induction cutClosing? s with
  | case1 => simp [closing]
  | case2 r =>
      simp only [reduceCtorEq, false_iff, not_not]
      exact ⟨[], r, rfl⟩
  | case3 c r hne ih =>
      rw [Option.map_eq_none_iff, ih, List.infix_cons_iff, not_or, iff_and_self]
      rintro - ⟨t, ht⟩
      obtain ⟨hc, hr⟩ := List.cons.inj ht
      exact hne t hc.symm hr.symm

theorem not_closing_isInfix {r : Text} (h : cutClosing? r = none) : ¬closing <:+: opening ++ r := by
  rw [← cutClosing?_eq_none_iff, cutClosing?_append (by decide), h]
  rfl

theorem cutClosing?_of_cut {s inner rest : Text} (h : cutClosing? s = some (inner, rest))
    (r : Text) : cutClosing? (inner ++ (closing ++ r)) = some (inner, r) := by
  fun_induction cutClosing? s generalizing inner with
  | case1 => cases h
  | case2 t =>
      obtain ⟨rfl, -⟩ := Prod.mk.inj (Option.some.inj h)
      rfl
  | case3 c t hne ih =>
      obtain ⟨p, hp, heq⟩ := Option.map_eq_some_iff.1 h
      obtain ⟨rfl, rfl⟩ := Prod.mk.inj heq
      have ht := eq_of_cutClosing? hp
      rw [List.cons_append, cutClosing?_cons, ih hp]
      · rfl
      · rintro rfl hhead
        cases hfirst : p.1 with
        | nil =>
            rw [hfirst] at ht
            exact hne _ rfl ht
        | cons d inner =>
            rw [hfirst] at hhead ht
            obtain rfl := Option.some.inj hhead
            exact hne _ rfl ht

theorem ofText_of_cut {s inner rest : Text} (h : cutClosing? s = some (inner, rest)) :
    ofText (opening ++ s) = tag inner :: ofText rest := by
  change ofText ('{' :: '{' :: s) = _
  rw [ofText]
  split
  · next heq =>
      rw [h] at heq
      obtain ⟨rfl, rfl⟩ := Prod.mk.inj (Option.some.inj heq)
      rfl
  · next heq => rw [h] at heq; cases heq

theorem ofText_of_cut_eq_none {s : Text} (h : cutClosing? s = none) :
    ofText (opening ++ s) = [literal (opening ++ s)] := by
  change ofText ('{' :: '{' :: s) = _
  rw [ofText]
  split
  · next heq => rw [h] at heq; cases heq
  · rfl

theorem ofText_tag {inner : Text} (h : '}' ∉ inner) (r : Text) :
    ofText (opening ++ inner ++ closing ++ r) = tag inner :: ofText r := by
  have hcut : cutClosing? (inner ++ (closing ++ r)) = some (inner, r) := by
    rw [cutClosing?_append h]
    simp [closing, cutClosing?]
  rw [List.append_assoc, List.append_assoc]
  exact ofText_of_cut hcut

theorem ofText_tags (inners : List Text) (h : ∀ inner ∈ inners, '}' ∉ inner) :
    ofText (inners.flatMap fun inner => opening ++ inner ++ closing) = inners.map tag := by
  induction inners with
  | nil => rw [List.flatMap_nil, List.map_nil, ofText]
  | cons inner inners ih =>
      obtain ⟨hinner, hrest⟩ := List.forall_mem_cons.1 h
      rw [List.flatMap_cons, ofText_tag hinner, ih hrest, List.map_cons]

/-- Of two pieces side by side, one is a tag. -/
def MeetAtTag (p q : Piece) : Prop := ∀ t u, p = literal t → q ≠ literal u

theorem isChain_ofText (s : Text) : (ofText s).IsChain MeetAtTag := by
  fun_induction ofText s with
  | case1 r inner rest hcut ih =>
      refine List.isChain_cons.2 ⟨?_, ih⟩
      intro q _ t u htag
      cases htag
  | case2 r hcut => exact List.isChain_singleton _
  | case3 c r hne ih =>
      cases hps : ofText r with
      | nil => exact List.isChain_singleton _
      | cons p ps =>
          rw [hps] at ih
          cases p with
          | literal t =>
              rw [List.isChain_cons] at ih
              refine List.isChain_cons.2 ⟨?_, ih.2⟩
              intro q hq _ u _
              exact ih.1 q hq t u rfl
          | tag inner =>
              refine List.isChain_cons.2 ⟨?_, ih⟩
              intro q hq _ u _ heq
              obtain rfl : tag inner = q := Option.some.inj hq
              cases heq
  | case4 => exact List.isChain_nil

theorem tags_literal_behind (t : Text) (ps : List Piece) : tags (literal t :: behind ps) = tags ps := by
  match ps with
  | [] | literal _ :: _ | tag _ :: _ => rfl

theorem literal_mem_around_tag {front inner rest t : Text}
    (h : literal t ∈ [literal front, tag inner, literal rest]) : t = front ∨ t = rest := by
  simpa using h

/-- A text that is cut as one tag, whatever follows it. -/
def IsTag (w : Text) : Prop :=
  ∃ inner, w = (tag inner).text ∧ ∀ r, cutClosing? (inner ++ (closing ++ r)) = some (inner, r)

theorem isTag_of_mem_tags {s w : Text} (h : w ∈ tags (ofText s)) : IsTag w := by
  fun_induction ofText s with
  | case1 r inner rest hcut ih =>
      rcases List.mem_cons.1 h with rfl | hrest
      · exact ⟨inner, rfl, cutClosing?_of_cut hcut⟩
      · exact ih hrest
  | case2 r hcut => cases h
  | case3 c r hne ih =>
      rw [consLiteral_eq, tags_literal_behind] at h
      exact ih h
  | case4 => cases h

theorem IsTag.head? {w : Text} (h : IsTag w) : w.head? = some '{' := by
  obtain ⟨inner, rfl, -⟩ := h
  rfl

theorem IsTag.tags_ofText {w : Text} (h : IsTag w) (r : Text) :
    tags (ofText (w ++ r)) = w :: tags (ofText r) := by
  obtain ⟨inner, rfl, hcut⟩ := h
  have hw : (tag inner).text ++ r = opening ++ (inner ++ (closing ++ r)) := by simp [text]
  rw [hw, ofText_of_cut (hcut r)]
  rfl

/-! ### Escaped templates -/

theorem cutClosing?_escape (s : Text) :
    cutClosing? (Text.escape s) =
      (cutClosing? s).map fun p => (Text.escape p.1, Text.escape p.2) := by
  induction hn : s.length using Nat.strongRecOn generalizing s with
  | _ n ih =>
      subst hn
      rcases Text.eq_nil_or_brace_or_unit s with rfl | ⟨c, r, rfl, hc⟩ | ⟨u, a, r, rfl, hu, hb⟩
      · rfl
      · have hesc : ∀ t, Text.escape (c :: t) = c :: Text.escape t :=
          Text.escape_cons_self hc.isOrdinary hc.ne_quote
        by_cases hclose : c = '}' ∧ r.head? = some '}'
        · obtain ⟨rfl, hr⟩ := hclose
          obtain ⟨r, rfl⟩ := List.head?_eq_some_iff.1 hr
          rw [hesc, Text.escape_cons_self (by decide) (by decide)]
          rfl
        · have hr : c = '}' → r.head? ≠ some '}' := fun he hh => hclose ⟨he, hh⟩
          rw [hesc, cutClosing?_cons hr, cutClosing?_cons fun he hh =>
            hr he ((Text.head?_escape (.inr rfl) r).1 hh), ih r.length (by simp) r rfl,
            Option.map_map, Option.map_map]
          simp only [Function.comp_def, hesc]
      · have hlen := List.length_pos_iff.2 hu.ne_nil
        obtain ⟨ha, hau⟩ := hb '}' (.inr rfl)
        rw [hu.escape_eq (List.prefix_refl r), cutClosing?_append hau, cutClosing?_append ha,
          ih r.length (by simp; omega) r rfl, Option.map_map, Option.map_map]
        refine Option.map_congr fun p hp => ?_
        have hfront : p.1 <+: r := ⟨closing ++ p.2, by
          rw [← List.append_assoc]
          exact (eq_of_cutClosing? hp).symm⟩
        simp only [Function.comp_def, hu.escape_eq hfront]

/-- Braces do not change what is escaped next to them. -/
theorem text_escaped (p : Piece) : p.escaped.text = Text.escape p.text := by
  match p with
  | literal t => rfl
  | tag inner =>
      have hclosing : Text.escape closing = closing := Text.escape_eq_self (by decide)
      have hinner : Text.escape (opening ++ inner) = opening ++ Text.escape inner := by
        rw [opening, List.cons_append, List.cons_append, List.nil_append,
          Text.escape_cons_self (by decide) (by decide),
          Text.escape_cons_self (by decide) (by decide)]
        rfl
      have hfirst : ∀ c ∈ closing.head?, Text.IsOrdinary c := by
        intro c hc
        obtain rfl := Option.some.inj hc
        decide
      rw [escaped, text, text, Text.escape_append hfirst, hinner, hclosing]

/-- The pieces of an escaped template are the escaped pieces of the template. -/
theorem ofText_escape (s : Text) : ofText (Text.escape s) = (ofText s).map escaped := by
  induction hn : s.length using Nat.strongRecOn generalizing s with
  | _ n ih =>
      subst hn
      rcases Text.eq_nil_or_brace_or_unit s with rfl | ⟨c, r, rfl, hc⟩ | ⟨u, a, r, rfl, hu, hb⟩
      · simp [ofText]
      · have hesc : ∀ t, Text.escape (c :: t) = c :: Text.escape t :=
          Text.escape_cons_self hc.isOrdinary hc.ne_quote
        by_cases hopen : c = '{' ∧ r.head? = some '{'
        · obtain ⟨rfl, hr⟩ := hopen
          obtain ⟨r, rfl⟩ := List.head?_eq_some_iff.1 hr
          rw [hesc, Text.escape_cons_self (by decide) (by decide)]
          change ofText (opening ++ Text.escape r) = (ofText (opening ++ r)).map escaped
          have hcut := cutClosing?_escape r
          cases hr : cutClosing? r with
          | some cut =>
              obtain ⟨inner, rest⟩ := cut
              rw [hr] at hcut
              have hlen := length_lt_of_cutClosing? hr
              rw [ofText_of_cut hcut, ofText_of_cut hr, ih rest.length (by simp; omega) rest rfl]
              rfl
          | none =>
              rw [hr] at hcut
              rw [ofText_of_cut_eq_none hcut, ofText_of_cut_eq_none hr, List.map_singleton, escaped]
              change _ = [literal (Text.escape ('{' :: '{' :: r))]
              rw [hesc, hesc]
              rfl
        · have hr : c = '{' → r.head? ≠ some '{' := fun he hh => hopen ⟨he, hh⟩
          rw [hesc, ofText_cons hr, ofText_cons fun he hh =>
            hr he ((Text.head?_escape (.inl rfl) r).1 hh), ih r.length (by simp) r rfl]
          simp [escaped, hesc]
      · have hlen := List.length_pos_iff.2 hu.ne_nil
        obtain ⟨ha, hau⟩ := hb '{' (.inl rfl)
        rw [hu.escape_eq (List.prefix_refl r), ofText_append (Text.escapeUnit_ne_nil u) hau,
          ofText_append hu.ne_nil ha, ih r.length (by simp; omega) r rfl]
        simp [escaped, hu.escape_eq (front_isPrefix r)]

/-! ### Templates without tags -/

/-- Somewhere in the text stand two opening braces and, after them, two closing braces. -/
def HasTag (s : Text) : Prop :=
  ∃ before inner after, s = before ++ opening ++ inner ++ closing ++ after

theorem HasTag.mono {s t : Text} (h : HasTag s) (hpart : s <:+: t) : HasTag t := by
  obtain ⟨before, inner, after, rfl⟩ := h
  obtain ⟨left, right, rfl⟩ := hpart
  exact ⟨left ++ before, inner, after ++ right, by simp⟩

theorem not_hasTag_of_not_mem {s : Text} (h : '{' ∉ s) : ¬HasTag s := by
  rintro ⟨before, inner, after, rfl⟩
  simp [opening] at h

theorem not_hasTag_cons {c : Char} {r : Text} (h : ¬HasTag r) (hc : c = '{' → r.head? ≠ some '{') :
    ¬HasTag (c :: r) := by
  rintro ⟨before, inner, after, heq⟩
  match before with
  | [] =>
      obtain ⟨rfl, rfl⟩ := List.cons.inj heq
      exact hc rfl rfl
  | d :: before => exact h ⟨before, inner, after, (List.cons.inj heq).2⟩

theorem not_hasTag_append {a r : Text} (ha : '{' ∉ a) (h : ¬HasTag r) : ¬HasTag (a ++ r) := by
  induction a with
  | nil => exact h
  | cons c a ih =>
      obtain ⟨hc, ha⟩ := not_or.1 (mt List.mem_cons.2 ha)
      exact not_hasTag_cons (ih ha) fun he => absurd he.symm hc

theorem ofText_of_not_hasTag {s : Text} (h : ¬HasTag s) :
    ofText s = if s = [] then [] else [literal s] := by
  fun_induction ofText s with
  | case1 r inner rest hcut ih =>
      refine absurd ⟨[], inner, rest, ?_⟩ h
      rw [eq_of_cutClosing? hcut]
      simp [opening]
  | case2 r hcut => rfl
  | case3 c r hne ih =>
      have hr : ¬HasTag r := fun ht => h (ht.mono (List.suffix_cons c r).isInfix)
      rw [ih hr, if_neg (List.cons_ne_nil c r)]
      cases r <;> rfl
  | case4 => rfl

theorem tags_eq_nil_iff {s : Text} : tags (ofText s) = [] ↔ ¬HasTag s := by
  refine ⟨fun h => ?_, fun h => ?_⟩
  · fun_induction ofText s with
    | case1 => cases h
    | case2 r hcut =>
        rintro ⟨before, inner, after, heq⟩
        exact not_closing_isInfix hcut ⟨before ++ opening ++ inner, after, heq.symm⟩
    | case3 c r hne ih =>
        rw [consLiteral_eq, tags_literal_behind] at h
        refine not_hasTag_cons (ih h) fun hc hr => ?_
        obtain ⟨u, hu⟩ := List.head?_eq_some_iff.1 hr
        exact hne u hc hu
    | case4 => exact not_hasTag_of_not_mem (by simp)
  · rw [ofText_of_not_hasTag h]
    split <;> rfl

end Stencil.Piece
