import Stencil.Proofs.Pieces

/-!
# Which pieces a text is cut into

Whether pieces are those of their text can be told from each piece and its neighbour. Nothing closes
a tag before its end, no two opening braces begin in the literal text in front of a tag, and the
literal text behind the last tag has no tag. So a tag can be replaced by another one, or the blanks
around a template removed, and all other pieces stay the pieces of the new text.
-/

namespace Stencil.Piece

/-- What stands between the braces of a tag: behind it, two closing braces are the first ones. -/
def IsEnclosed (inner : Text) : Prop := ¬closing <:+: inner ++ ['}']

theorem isEnclosed_nil : IsEnclosed [] := by
  rw [IsEnclosed, List.nil_append]
  decide

theorem isEnclosed_cons_iff {c : Char} {inner : Text} :
    IsEnclosed (c :: inner) ↔
      ¬(c = '}' ∧ (inner ++ ['}']).head? = some '}') ∧ IsEnclosed inner := by
  rw [IsEnclosed, List.cons_append, List.infix_cons_iff, not_or, IsEnclosed]
  refine and_congr_left fun _ => not_congr ?_
  rw [closing, List.cons_prefix_cons, eq_comm]
  refine and_congr_right fun _ => ?_
  cases inner ++ ['}'] <;> simp [eq_comm]

theorem IsEnclosed.cutClosing?_eq {inner : Text} (h : IsEnclosed inner) (r : Text) :
    cutClosing? (inner ++ (closing ++ r)) = some (inner, r) := by
  induction inner with
  | nil => rfl
  | cons c inner ih =>
      obtain ⟨hc, hinner⟩ := isEnclosed_cons_iff.1 h
      rw [List.cons_append, cutClosing?_cons, ih hinner]
      · rfl
      · intro heq hhead
        refine hc ⟨heq, ?_⟩
        cases inner with
        | nil => rfl
        | cons d inner => exact hhead

theorem isEnclosed_append_iff {a : Text} (h : '}' ∉ a) {inner : Text} :
    IsEnclosed (a ++ inner) ↔ IsEnclosed inner := by
  induction a with
  | nil => rfl
  | cons c a ih =>
      obtain ⟨hc, ha⟩ := not_or.1 (mt List.mem_cons.2 h)
      rw [List.cons_append, isEnclosed_cons_iff, ih ha]
      exact and_iff_right fun hpair => hc hpair.1.symm

theorem isEnclosed_append_iff_of_ne_nil {inner a : Text} (hne : a ≠ []) (h : '}' ∉ a) :
    IsEnclosed (inner ++ a) ↔ ¬closing <:+: inner := by
  refine not_congr ⟨fun hwithin => ?_, fun hwithin => ?_⟩
  · obtain ⟨c, a, rfl⟩ := List.exists_cons_of_ne_nil hne
    obtain ⟨hc, ha⟩ := not_or.1 (mt List.mem_cons.2 h)
    rw [List.append_assoc, List.cons_append] at hwithin
    rcases Text.isInfix_or_of_not_mem (by simpa [closing] using fun he => hc he.symm) hwithin
      with hinner | hrest
    · exact hinner
    · have hnil := (isEnclosed_append_iff ha).2 isEnclosed_nil
      rw [IsEnclosed, List.append_nil] at hnil
      exact absurd hrest hnil
  · rw [List.append_assoc]
    exact hwithin.trans (List.prefix_append inner _).isInfix

private theorem isEnclosed_of_cutClosing? {s inner rest : Text}
    (h : cutClosing? s = some (inner, rest)) : IsEnclosed inner := by
  fun_induction cutClosing? s generalizing inner with
  | case1 => cases h
  | case2 r =>
      obtain ⟨rfl, -⟩ := Prod.mk.inj (Option.some.inj h)
      exact isEnclosed_nil
  | case3 c r hne ih =>
      obtain ⟨p, hp, heq⟩ := Option.map_eq_some_iff.1 h
      obtain ⟨rfl, rfl⟩ := Prod.mk.inj heq
      refine isEnclosed_cons_iff.2 ⟨?_, ih hp⟩
      rintro ⟨rfl, hhead⟩
      have hr := eq_of_cutClosing? hp
      rw [List.append_assoc] at hr
      cases hfirst : p.1 with
      | nil =>
          rw [hfirst] at hr
          exact hne _ rfl hr
      | cons d inner =>
          rw [hfirst] at hr hhead
          obtain rfl := Option.some.inj hhead
          exact hne _ rfl hr

/-! ### The pieces of a text -/

/-- Pieces that cutting their text gives back. -/
inductive IsCut : List Piece → Prop where
  | nil : IsCut []
  | last {t : Text} (hne : t ≠ []) (h : ¬HasTag t) : IsCut [literal t]
  /-- Literal text in front of a tag. The last pair of braces that it could begin has one brace of
  the tag. -/
  | before {t inner : Text} {ps : List Piece} (hne : t ≠ []) (h : ¬opening <:+: t ++ ['{'])
      (hps : IsCut (tag inner :: ps)) : IsCut (literal t :: tag inner :: ps)
  | tag {inner : Text} {ps : List Piece} (h : IsEnclosed inner) (hps : IsCut ps) :
      IsCut (tag inner :: ps)

theorem isCut_tag_iff {inner : Text} {ps : List Piece} :
    IsCut (tag inner :: ps) ↔ IsEnclosed inner ∧ IsCut ps := by
  constructor
  · rintro (_ | _ | _ | ⟨h, hps⟩)
    exact ⟨h, hps⟩
  · exact fun h => .tag h.1 h.2

theorem isCut_before_iff {t inner : Text} {ps : List Piece} :
    IsCut (literal t :: tag inner :: ps) ↔
      (t ≠ [] ∧ ¬opening <:+: t ++ ['{']) ∧ IsCut (tag inner :: ps) := by
  constructor
  · rintro (_ | _ | ⟨hne, h, hps⟩ | _)
    exact ⟨⟨hne, h⟩, hps⟩
  · exact fun h => .before h.1.1 h.1.2 h.2

theorem not_isCut_literal_literal (t u : Text) (ps : List Piece) :
    ¬IsCut (literal t :: literal u :: ps) := nofun

theorem isCut_ofText (s : Text) : IsCut (ofText s) := by
  fun_induction ofText s with
  | case1 r inner rest hcut ih => exact .tag (isEnclosed_of_cutClosing? hcut) ih
  | case2 r hcut =>
      refine .last (by simp) ?_
      rintro ⟨before, inner, after, heq⟩
      exact not_closing_isInfix hcut ⟨before ++ opening ++ inner, after, heq.symm⟩
  | case3 c r hne ih =>
      have hpair : c = '{' → r.head? ≠ some '{' := by
        intro hc hr
        obtain ⟨u, hu⟩ := List.head?_eq_some_iff.1 hr
        exact hne u hc hu
      have htext := flatMap_text_ofText r
      -- What the rest begins with decides which piece the character begins.
      generalize ofText r = ps at ih htext
      cases ih with
      | nil => exact .last (by simp) (not_hasTag_cons (not_hasTag_of_not_mem (by simp)) (by simp))
      | @last t hnil htag =>
          obtain rfl : t = r := by simpa [text] using htext
          exact .last (by simp) (not_hasTag_cons htag hpair)
      | @before t inner ps hnil hopening hps =>
          refine .before (by simp) ?_ hps
          rw [List.cons_append, List.infix_cons_iff, not_or]
          refine ⟨fun hfront => ?_, hopening⟩
          obtain ⟨d, t, rfl⟩ := List.exists_cons_of_ne_nil hnil
          obtain ⟨hc, hd⟩ := List.cons_prefix_cons.1 hfront
          obtain ⟨rfl, -⟩ := List.cons_prefix_cons.1 hd
          exact hpair hc.symm (by rw [← htext]; rfl)
      | @tag inner ps hinner hps =>
          refine .before (by simp) (fun hwithin => ?_) (.tag hinner hps)
          have hfront : opening = [c, '{'] := hwithin.eq_of_length_le (by simp [opening])
          exact hpair (List.cons.inj hfront).1.symm (by rw [← htext]; rfl)
  | case4 => exact .nil

theorem IsCut.ofText_eq {ps : List Piece} (h : IsCut ps) : ofText (ps.flatMap text) = ps := by
  induction h with
  | nil => simp [ofText]
  | last hne htag =>
      rw [List.flatMap_singleton, text, ofText_of_not_hasTag htag, if_neg hne]
  | before hne hopening hps ih =>
      rw [List.flatMap_cons, text, ofText_append_of_not_opening hne hopening, ih]
      simp [front, behind]
  | tag hinner hps ih =>
      rw [List.flatMap_cons, text, List.append_assoc, List.append_assoc,
        ofText_of_cut (hinner.cutClosing?_eq _), ih]

theorem IsCut.flatMap_text_map_escaped {ps : List Piece} (h : IsCut ps) :
    (ps.map escaped).flatMap text = Text.escape (ps.flatMap text) := by
  rw [← flatMap_text_ofText (Text.escape _), ofText_escape, h.ofText_eq]

/-- Pieces are those of a text if they make it up and are such that cutting gives them back. -/
theorem ofText_eq_iff {s : Text} {ps : List Piece} :
    ofText s = ps ↔ ps.flatMap text = s ∧ IsCut ps := by
  constructor
  · rintro rfl
    exact ⟨flatMap_text_ofText s, isCut_ofText s⟩
  · rintro ⟨rfl, hps⟩
    exact hps.ofText_eq

/-! ### Replacing a tag -/

/-- What stands in front of a tag does not depend on the tag, nor on what stands behind it. -/
theorem isCut_append_tag_iff {inner : Text} {after : List Piece} :
    ∀ before : List Piece, IsCut (before ++ tag inner :: after) ↔
      IsCut (before ++ [tag []]) ∧ IsEnclosed inner ∧ IsCut after
  | [] => by
      rw [List.nil_append, List.nil_append, isCut_tag_iff]
      exact iff_and_self.2 fun _ => .tag isEnclosed_nil .nil
  | tag i :: before => by
      rw [List.cons_append, List.cons_append, isCut_tag_iff, isCut_tag_iff,
        isCut_append_tag_iff before, and_assoc]
  | [literal t] => by
      change IsCut (literal t :: tag inner :: after) ↔ IsCut [literal t, tag []] ∧ _
      rw [isCut_before_iff, isCut_before_iff, isCut_tag_iff, isCut_tag_iff]
      have hnil : IsEnclosed [] ∧ IsCut [] := ⟨isEnclosed_nil, .nil⟩
      rw [and_iff_left hnil]
  | literal t :: tag i :: before => by
      have ih : IsCut (tag i :: (before ++ tag inner :: after)) ↔
          IsCut (tag i :: (before ++ [tag []])) ∧ IsEnclosed inner ∧ IsCut after :=
        isCut_append_tag_iff (tag i :: before)
      change IsCut (literal t :: tag i :: (before ++ tag inner :: after)) ↔
        IsCut (literal t :: tag i :: (before ++ [tag []])) ∧ _
      rw [isCut_before_iff, isCut_before_iff, ih]
      exact and_assoc.symm
  | literal t :: literal u :: before =>
      iff_of_false (not_isCut_literal_literal t u _) fun h => not_isCut_literal_literal t u _ h.1

/-! ### Blanks around a template -/

def trimFront : List Piece → List Piece
  | literal t :: ps => if Text.trimLeft t = [] then ps else literal (Text.trimLeft t) :: ps
  | ps => ps

def trimBack : List Piece → List Piece
  | [literal t] => if Text.trimRight t = [] then [] else [literal (Text.trimRight t)]
  | p :: ps => p :: trimBack ps
  | [] => []

theorem trimFront_append_tag (before after : List Piece) (inner : Text) :
    trimFront (before ++ tag inner :: after) = trimFront before ++ tag inner :: after := by
  match before with
  | [] | tag _ :: _ => rfl
  | literal t :: before =>
      rw [List.cons_append, trimFront, trimFront]
      split_ifs <;> rfl

theorem trimBack_append_tag (before after : List Piece) (inner : Text) :
    trimBack (before ++ tag inner :: after) = before ++ tag inner :: trimBack after := by
  induction before with
  | nil => rfl
  | cons p before ih =>
      rw [List.cons_append, List.cons_append, ← ih]
      match p, before with
      | tag _, _ | literal _, [] | literal _, _ :: _ => rfl

theorem IsCut.trimFront {ps : List Piece} (h : IsCut ps) : IsCut (trimFront ps) := by
  cases h with
  | nil => exact .nil
  | tag hinner hps => exact .tag hinner hps
  | @last t hne htag =>
      rw [Piece.trimFront]
      split_ifs with hblank
      · exact .nil
      · exact .last hblank fun h => htag (h.mono (List.dropWhile_suffix _).isInfix)
  | @before t inner ps hne hopening hps =>
      rw [Piece.trimFront]
      split_ifs with hblank
      · exact hps
      · obtain ⟨blanks, hblanks⟩ : Text.trimLeft t <:+ t := List.dropWhile_suffix _
        have hsuffix : Text.trimLeft t ++ ['{'] <:+ t ++ ['{'] :=
          ⟨blanks, by rw [← List.append_assoc, hblanks]⟩
        exact .before hblank (fun hwithin => hopening (hwithin.trans hsuffix.isInfix)) hps

theorem IsCut.flatMap_text_trimFront {ps : List Piece} (h : IsCut ps) :
    (Piece.trimFront ps).flatMap text = Text.trimLeft (ps.flatMap text) := by
  cases h with
  | nil | tag hinner hps => rfl
  | @last t hne htag =>
      rw [Piece.trimFront]
      split_ifs with hblank
      · simp [text, hblank]
      · simp [text]
  | @before t inner ps hne hopening hps =>
      rw [Piece.trimFront, List.flatMap_cons, text, Text.trimLeft_append]
      split_ifs with hblank
      · rfl
      · rfl

theorem IsCut.trimBack {ps : List Piece} (h : IsCut ps) : IsCut (trimBack ps) := by
  induction h with
  | nil => exact .nil
  | tag hinner hps ih => exact .tag hinner ih
  | before hne hopening hps ih => exact .before hne hopening ih
  | @last t hne htag =>
      rw [Piece.trimBack]
      split_ifs with hblank
      · exact .nil
      · exact .last hblank fun h => htag (h.mono (Text.trimRight_isPrefix t).isInfix)

theorem trimRight_tag_append (inner r : Text) :
    Text.trimRight ((tag inner).text ++ r) = (tag inner).text ++ Text.trimRight r := by
  rw [Text.trimRight_append]
  split_ifs with hblank
  · rw [hblank, List.append_nil, text, Text.trimRight_append]
    rfl
  · rfl

theorem trimLeft_append_tag (a inner b : Text) :
    Text.trimLeft (a ++ ((tag inner).text ++ b)) = Text.trimLeft a ++ ((tag inner).text ++ b) := by
  rw [Text.trimLeft_append]
  split_ifs with hblank
  · rw [hblank]
    rfl
  · rfl

/-- Removing the blanks around a template does not reach into a tag. -/
theorem trim_append_tag (a inner b : Text) :
    Text.trim (a ++ ((tag inner).text ++ b)) =
      Text.trimLeft a ++ ((tag inner).text ++ Text.trimRight b) := by
  rw [Text.trim, trimLeft_append_tag, Text.trimRight_append, trimRight_tag_append]
  exact if_neg (List.cons_ne_nil _ _)

theorem IsCut.flatMap_text_trimBack {ps : List Piece} (h : IsCut ps) :
    (Piece.trimBack ps).flatMap text = Text.trimRight (ps.flatMap text) := by
  induction h with
  | nil => rfl
  | @tag i ps hinner hps ih =>
      rw [List.flatMap_cons, trimRight_tag_append, ← ih]
      rfl
  | @before t i ps hne hopening hps ih =>
      have htag : Text.trimRight ((Piece.tag i :: ps).flatMap text) ≠ [] := by
        rw [List.flatMap_cons, trimRight_tag_append]
        exact List.cons_ne_nil _ _
      rw [List.flatMap_cons, text, Text.trimRight_append, if_neg htag, ← ih]
      rfl
  | @last t hne htag =>
      rw [Piece.trimBack]
      split_ifs with hblank
      · simp [text, hblank]
      · simp [text]

/-- The blanks around a template are removed from its first and its last piece. -/
theorem ofText_trim (s : Text) : ofText (Text.trim s) = trimBack (trimFront (ofText s)) := by
  have hcut := isCut_ofText s
  refine ofText_eq_iff.2 ⟨?_, hcut.trimFront.trimBack⟩
  rw [hcut.trimFront.flatMap_text_trimBack, hcut.flatMap_text_trimFront, flatMap_text_ofText]
  rfl

private theorem exists_literal_of_trimFront {ps : List Piece} {t : Text}
    (h : literal t ∈ trimFront ps) : ∃ u, literal u ∈ ps ∧ t <:+: u := by
  match ps with
  | [] | tag _ :: _ => exact ⟨t, h, List.infix_rfl⟩
  | literal u :: ps =>
      rw [trimFront] at h
      split_ifs at h
      · exact ⟨t, List.mem_cons_of_mem _ h, List.infix_rfl⟩
      · rcases List.mem_cons.1 h with heq | hrest
        · obtain rfl := Piece.literal.inj heq
          exact ⟨u, List.mem_cons_self, (List.dropWhile_suffix _).isInfix⟩
        · exact ⟨t, List.mem_cons_of_mem _ hrest, List.infix_rfl⟩

private theorem exists_literal_of_trimBack {ps : List Piece} {t : Text}
    (h : literal t ∈ trimBack ps) : ∃ u, literal u ∈ ps ∧ t <:+: u := by
  fun_induction trimBack ps with
  | case1 u hblank => cases h
  | case2 u hblank =>
      obtain rfl := Piece.literal.inj (List.mem_singleton.1 h)
      exact ⟨u, List.mem_cons_self, (Text.trimRight_isPrefix u).isInfix⟩
  | case3 p ps _ ih =>
      rcases List.mem_cons.1 h with heq | hrest
      · exact ⟨t, heq ▸ List.mem_cons_self, List.infix_rfl⟩
      · obtain ⟨u, hu, htu⟩ := ih hrest
        exact ⟨u, List.mem_cons_of_mem _ hu, htu⟩
  | case4 => cases h

theorem exists_literal_of_trim {s t : Text} (h : literal t ∈ ofText (Text.trim s)) :
    ∃ u, literal u ∈ ofText s ∧ t <:+: u := by
  rw [ofText_trim] at h
  obtain ⟨u, hu, htu⟩ := exists_literal_of_trimBack h
  obtain ⟨v, hv, huv⟩ := exists_literal_of_trimFront hu
  exact ⟨v, hv, htu.trans huv⟩

private theorem tag_mem_of_trimFront {ps : List Piece} {inner : Text}
    (h : tag inner ∈ trimFront ps) : tag inner ∈ ps := by
  match ps with
  | [] | tag _ :: _ => exact h
  | literal t :: ps =>
      rw [trimFront] at h
      split_ifs at h
      · exact List.mem_cons_of_mem _ h
      · exact List.mem_cons_of_mem _ ((List.mem_cons.1 h).resolve_left (by simp))

private theorem tag_mem_of_trimBack {ps : List Piece} {inner : Text} (h : tag inner ∈ trimBack ps) :
    tag inner ∈ ps := by
  fun_induction trimBack ps with
  | case1 t hblank => cases h
  | case2 t hblank => cases List.mem_singleton.1 h
  | case3 p ps _ ih => exact List.mem_cons.2 ((List.mem_cons.1 h).imp_right ih)
  | case4 => cases h

theorem tag_mem_of_trim {s inner : Text} (h : tag inner ∈ ofText (Text.trim s)) :
    tag inner ∈ ofText s := by
  rw [ofText_trim] at h
  exact tag_mem_of_trimFront (tag_mem_of_trimBack h)

end Stencil.Piece
