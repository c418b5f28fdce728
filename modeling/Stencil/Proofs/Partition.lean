import Mathlib.Order.Bounds.Basic
import Stencil.Proofs.Cuts
import Stencil.Proofs.Reading

/-!
# The partition of a text into segments

What scanning gives can be told without scanning. Every directive begins at the first place behind
the directive before it where two opening braces stand that are closed later, and ends with the
first two closing braces behind them. What is between the directives is literal text, in one segment
each. These properties have one solution, so they determine the segments of a text.
-/

namespace Stencil

/-! ### Places in a text -/

namespace Text

/-- A word stands in a text at a place, which is the number of characters before it. -/
def StandsAt (w s : Text) (place : Nat) : Prop := w <+: s.drop place

theorem standsAt_append_iff {w a r : Text} {k : Nat} :
    w.StandsAt (a ++ r) (a.length + k) ↔ w.StandsAt r k := by
  rw [StandsAt, StandsAt, List.drop_length_add_append]

theorem standsAt_append (a w r : Text) : w.StandsAt (a ++ (w ++ r)) a.length := by
  rw [StandsAt, List.drop_left]
  exact List.prefix_append w r

/-- Two characters stand in a text and the character behind it exactly if they stand at a place of
the text, whatever follows that character. -/
theorem pair_isInfix_concat_iff {c d e : Char} {a : Text} (r : Text) :
    [c, d] <:+: a ++ [e] ↔ ∃ k < a.length, StandsAt [c, d] (a ++ e :: r) k := by
  induction a with
  | nil =>
      refine iff_of_false (fun h => ?_) (by simp)
      have hlength := h.length_le
      simp at hlength
  | cons b a ih =>
      have hfront : [c, d] <+: b :: (a ++ [e]) ↔ [c, d] <+: b :: (a ++ e :: r) := by
        cases a <;> simp [List.cons_prefix_cons]
      rw [List.cons_append, List.infix_cons_iff, ih, hfront]
      constructor
      · rintro (h | ⟨k, hk, h⟩)
        · exact ⟨0, Nat.succ_pos _, h⟩
        · exact ⟨k + 1, Nat.succ_lt_succ hk, h⟩
      · rintro ⟨k, hk, h⟩
        cases k with
        | zero => exact .inl h
        | succ k => exact .inr ⟨k, Nat.lt_of_succ_lt_succ hk, h⟩

end Text

/-! ### The conditions on a partition -/

namespace Segment

/-- The end of a segment that is a directive; literal text leaves the place as it is. -/
def endFrom (place : Nat) : Segment → Nat
  | literal _ _ => place
  | directive _ start t => start + t.length

/-- Where the last directive ends, and 0 if there is none. -/
def endOfLast (segments : List Segment) : Nat := segments.foldl endFrom 0

/-- The segments partition a text at its tags. -/
structure IsPartition (s : Text) (segments : List Segment) : Prop where
  text_eq : segments.flatMap text = s
  position_eq : ∀ before segment after, segments = before ++ segment :: after →
    segment.position = (before.flatMap text).length
  literal_ne_nil : ∀ t place, literal t place ∈ segments → t ≠ []
  literals_apart : ∀ before t place u next after,
    segments ≠ before ++ literal t place :: literal u next :: after
  literal_no_tag : ∀ t place, literal t place ∈ segments → ¬Piece.HasTag t
  /-- A directive begins at the first opening braces behind the last directive that are closed. -/
  directive_start : ∀ before d place t after, segments = before ++ directive d place t :: after →
    IsLeast {i | endOfLast before ≤ i ∧ Piece.opening.StandsAt s i ∧
      ∃ j, i + 2 ≤ j ∧ Piece.closing.StandsAt s j} place
  /-- A directive ends with the first closing braces behind its opening braces. -/
  directive_end : ∀ d place t, directive d place t ∈ segments →
    ∃ inner, t = (Piece.tag inner).text ∧ d = Directive.ofInner inner ∧
      IsLeast {j | place + 2 ≤ j ∧ Piece.closing.StandsAt s j} (place + 2 + inner.length)
  trimmed : ∀ d place t, directive d place t ∈ segments → Text.trim d.expression = d.expression

end Segment

/-! ### Segments of consecutive pieces -/

namespace Piece

theorem IsCut.of_append : ∀ {ps qs : List Piece}, IsCut (ps ++ qs) → IsCut qs
  | [], _, h => h
  | p :: ps, qs, h => by
      have htail : IsCut (ps ++ qs) := by
        rw [List.cons_append] at h
        generalize ps ++ qs = rest at h
        cases h with
        | last => exact .nil
        | before _ _ hps => exact hps
        | tag _ hps => exact hps
      exact htail.of_append

private theorem opening_isInfix_of_hasTag {t : Text} (h : HasTag t) : opening <:+: t := by
  obtain ⟨before, inner, after, rfl⟩ := h
  exact ⟨before, inner ++ closing ++ after, by simp⟩

private theorem IsCut.literal {t : Text} {ps : List Piece} (h : IsCut (literal t :: ps)) :
    t ≠ [] ∧ ¬HasTag t := by
  cases h with
  | last hne htag => exact ⟨hne, htag⟩
  | before hne hopening _ =>
      refine ⟨hne, fun htag => hopening ?_⟩
      exact (opening_isInfix_of_hasTag htag).trans (List.prefix_append t _).isInfix

end Piece

namespace Segment

theorem flatMap_text_locate (place : Nat) (ps : List Piece) :
    (locate place ps).flatMap text = ps.flatMap Piece.text := by
  rw [List.flatMap_def, map_text_locate, ← List.flatMap_def]

theorem length_locate (place : Nat) (ps : List Piece) : (locate place ps).length = ps.length := by
  induction ps generalizing place with
  | nil => rfl
  | cons p ps ih => rw [locate, List.length_cons, ih, List.length_cons]

private theorem exists_of_locate_eq {place : Nat} {ps : List Piece} {before rest : List Segment}
    (h : locate place ps = before ++ rest) : ∃ qs rs, ps = qs ++ rs ∧ before = locate place qs ∧
      rest = locate (place + (qs.flatMap Piece.text).length) rs := by
  have hlength : before.length ≤ ps.length := by
    rw [← length_locate place, h, List.length_append]
    omega
  have hsplit := locate_append place (ps.take before.length) (ps.drop before.length)
  rw [List.take_append_drop, h] at hsplit
  obtain ⟨hbefore, hrest⟩ := List.append_inj hsplit (by rw [length_locate, List.length_take]; omega)
  exact ⟨_, _, (List.take_append_drop _ ps).symm, hbefore, hrest⟩

theorem exists_of_locate_eq_cons {place : Nat} {ps : List Piece} {segment : Segment}
    {after : List Segment} (h : segment :: after = locate place ps) :
    ∃ p qs, ps = p :: qs ∧ segment = ofPiece place p ∧
      after = locate (place + p.text.length) qs := by
  match ps with
  | [] => cases h
  | p :: qs =>
      obtain ⟨hsegment, hafter⟩ := List.cons.inj h
      exact ⟨p, qs, rfl, hsegment, hafter⟩

/-- A segment of a text is a piece at the place up to which the pieces before it reach. -/
theorem exists_of_scan_eq {s : Text} {before after : List Segment} {segment : Segment}
    (h : scan s = before ++ segment :: after) :
    ∃ qs p rs, Piece.ofText s = qs ++ p :: rs ∧ before = locate 0 qs ∧
      segment = ofPiece (qs.flatMap Piece.text).length p ∧
      after = locate ((qs.flatMap Piece.text).length + p.text.length) rs := by
  obtain ⟨qs, rest, hps, hbefore, hrest⟩ := exists_of_locate_eq h
  obtain ⟨p, rs, rfl, hsegment, hafter⟩ := exists_of_locate_eq_cons hrest
  rw [Nat.zero_add] at hsegment hafter
  exact ⟨qs, p, rs, hps, hbefore, hsegment, hafter⟩

theorem of_ofPiece_eq_literal {place start : Nat} {p : Piece} {t : Text}
    (h : literal t place = ofPiece start p) : p = .literal t := by
  match p with
  | .literal u =>
      obtain ⟨rfl, -⟩ := Segment.literal.inj h
      rfl
  | .tag _ => cases h

private theorem of_ofPiece_eq_directive {place start : Nat} {p : Piece} {d : Directive} {t : Text}
    (h : directive d place t = ofPiece start p) :
    ∃ inner, p = .tag inner ∧ d = Directive.ofInner inner ∧ t = (Piece.tag inner).text ∧
      place = start := by
  match p with
  | .literal _ => cases h
  | .tag inner =>
      obtain ⟨rfl, rfl, rfl⟩ := Segment.directive.inj h
      exact ⟨inner, rfl, rfl, rfl, rfl⟩

theorem locate_append_cons (qs : List Piece) (p : Piece) (rs : List Piece) :
    locate 0 (qs ++ p :: rs) = locate 0 qs ++ ofPiece (qs.flatMap Piece.text).length p ::
      locate ((qs.flatMap Piece.text).length + p.text.length) rs := by
  rw [locate_append, Nat.zero_add]
  rfl

private theorem exists_locate {place : Nat} {segments : List Segment}
    (hpiece : ∀ segment ∈ segments, ∃ p, segment = ofPiece segment.position p)
    (hplace : ∀ before segment after, segments = before ++ segment :: after →
      segment.position = place + (before.flatMap text).length) :
    ∃ ps, segments = locate place ps := by
  induction segments generalizing place with
  | nil => exact ⟨[], rfl⟩
  | cons segment segments ih =>
      obtain ⟨⟨p, hp⟩, hrest⟩ := List.forall_mem_cons.1 hpiece
      have hfirst : segment.position = place := hplace [] segment segments rfl
      rw [hfirst] at hp
      subst hp
      have hnext : ∀ before next after, segments = before ++ next :: after →
          next.position = place + p.text.length + (before.flatMap text).length := by
        intro before next after heq
        rw [hplace (ofPiece place p :: before) next after (by rw [heq, List.cons_append]),
          List.flatMap_cons, List.length_append, text_ofPiece, Nat.add_assoc]
      obtain ⟨ps, rfl⟩ := ih hrest hnext
      exact ⟨p :: ps, rfl⟩

theorem endOfLast_locate {ps : List Piece} (h : ∀ qs t, ps ≠ qs ++ [.literal t]) :
    endOfLast (locate 0 ps) = (ps.flatMap Piece.text).length := by
  rcases List.eq_nil_or_concat ps with rfl | ⟨qs, p, rfl⟩
  · rfl
  · match p with
    | .literal t => exact absurd (List.concat_eq_append ..) (h qs t)
    | .tag inner =>
        rw [List.concat_eq_append, locate_append_cons, endOfLast, List.foldl_append,
          List.flatMap_append, List.length_append, List.flatMap_singleton]
        rfl

theorem endOfLast_locate_concat_literal (ps : List Piece) (t : Text) :
    endOfLast (locate 0 (ps ++ [.literal t])) = endOfLast (locate 0 ps) := by
  rw [locate_append_cons, endOfLast, List.foldl_append]
  rfl

end Segment

/-! ### Where braces stand -/

namespace Piece

theorem isLeast_closing_iff {inner : Text} (a r : Text) :
    IsLeast {j | a.length + 2 ≤ j ∧ closing.StandsAt (a ++ ((tag inner).text ++ r)) j}
      (a.length + 2 + inner.length) ↔ IsEnclosed inner := by
  have htext : a ++ ((tag inner).text ++ r) = (a ++ opening) ++ (inner ++ '}' :: ('}' :: r)) := by
    simp [text, closing]
  have hplace (k : Nat) : closing.StandsAt (a ++ ((tag inner).text ++ r)) (a.length + 2 + k) ↔
      closing.StandsAt (inner ++ '}' :: ('}' :: r)) k := by
    have hlength : a.length + 2 = (a ++ opening).length := by simp [opening]
    rw [htext, hlength, Text.standsAt_append_iff]
  have hpair : closing <:+: inner ++ ['}'] ↔
      ∃ k < inner.length, closing.StandsAt (inner ++ '}' :: ('}' :: r)) k :=
    Text.pair_isInfix_concat_iff ('}' :: r)
  constructor
  · intro h hwithin
    obtain ⟨k, hk, hstands⟩ := hpair.1 hwithin
    have hle := h.2 ⟨Nat.le_add_right _ k, (hplace k).2 hstands⟩
    omega
  · refine fun h => ⟨⟨Nat.le_add_right _ _, ?_⟩, fun j hj => ?_⟩
    · exact (hplace _).2 (Text.standsAt_append inner closing r)
    · obtain ⟨k, rfl⟩ := Nat.exists_eq_add_of_le hj.1
      by_contra hlt
      exact h (hpair.2 ⟨k, by omega, (hplace k).1 hj.2⟩)

/-- A tag begins at the first opening braces that are closed exactly if no two opening braces begin
in the literal text in front of it. -/
theorem isLeast_opening_iff {inner : Text} (a t r : Text) :
    IsLeast {i | a.length ≤ i ∧ opening.StandsAt (a ++ (t ++ ((tag inner).text ++ r))) i ∧
        ∃ j, i + 2 ≤ j ∧ closing.StandsAt (a ++ (t ++ ((tag inner).text ++ r))) j}
      (a.length + t.length) ↔ ¬opening <:+: t ++ ['{'] := by
  have htext : t ++ ((tag inner).text ++ r) = t ++ '{' :: ('{' :: (inner ++ (closing ++ r))) := by
    simp [text, opening]
  have hclosing : closing.StandsAt (a ++ (t ++ ((tag inner).text ++ r)))
      (a.length + (t.length + (2 + inner.length))) := by
    have hlength : t.length + (2 + inner.length) = (t ++ (opening ++ inner)).length := by
      simp only [List.length_append]
      rfl
    have hend : t ++ ((tag inner).text ++ r) = (t ++ (opening ++ inner)) ++ (closing ++ r) := by
      simp [text]
    rw [Text.standsAt_append_iff, hlength, hend]
    exact Text.standsAt_append _ closing r
  have hpair : opening <:+: t ++ ['{'] ↔
      ∃ k < t.length, opening.StandsAt (t ++ '{' :: ('{' :: (inner ++ (closing ++ r)))) k :=
    Text.pair_isInfix_concat_iff ('{' :: (inner ++ (closing ++ r)))
  rw [← htext] at hpair
  constructor
  · intro h hwithin
    obtain ⟨k, hk, hstands⟩ := hpair.1 hwithin
    have hle := h.2 ⟨Nat.le_add_right _ k, Text.standsAt_append_iff.2 hstands,
      _, by omega, hclosing⟩
    omega
  · refine fun h => ⟨⟨Nat.le_add_right _ _, ?_, _, by omega, hclosing⟩, fun i hi => ?_⟩
    · rw [Text.standsAt_append_iff, htext]
      exact Text.standsAt_append t opening _
    · obtain ⟨k, rfl⟩ := Nat.exists_eq_add_of_le hi.1
      by_contra hlt
      exact h (hpair.2 ⟨k, by omega, Text.standsAt_append_iff.1 hi.2.1⟩)

end Piece

/-! ### Scanning gives the partition -/

namespace Segment

private theorem of_literal_mem_scan {s t : Text} {place : Nat} (h : literal t place ∈ scan s) :
    t ≠ [] ∧ ¬Piece.HasTag t := by
  obtain ⟨before, after, hscan⟩ := List.append_of_mem h
  obtain ⟨qs, p, rs, hps, -, hp, -⟩ := exists_of_scan_eq hscan
  obtain rfl := of_ofPiece_eq_literal hp
  have hcut := Piece.isCut_ofText s
  rw [hps] at hcut
  exact hcut.of_append.literal

private theorem exists_of_directive {s t : Text} {before after : List Segment} {d : Directive}
    {place : Nat} (h : scan s = before ++ directive d place t :: after) :
    ∃ qs inner rs, Piece.ofText s = qs ++ .tag inner :: rs ∧ before = locate 0 qs ∧
      d = Directive.ofInner inner ∧ t = (Piece.tag inner).text ∧
      place = (qs.flatMap Piece.text).length := by
  obtain ⟨qs, p, rs, hps, hbefore, hp, -⟩ := exists_of_scan_eq h
  obtain ⟨inner, rfl, hd, ht, hplace⟩ := of_ofPiece_eq_directive hp
  exact ⟨qs, inner, rs, hps, hbefore, hd, ht, hplace⟩

private theorem text_of_ofText_eq {s : Text} {qs rs : List Piece} {inner : Text}
    (h : Piece.ofText s = qs ++ .tag inner :: rs) :
    s = qs.flatMap Piece.text ++ ((Piece.tag inner).text ++ rs.flatMap Piece.text) := by
  rw [← Piece.flatMap_text_ofText s, h, List.flatMap_append, List.flatMap_cons]

private theorem exists_front {qs rs : List Piece} {inner : Text}
    (h : Piece.IsCut (qs ++ .tag inner :: rs)) :
    ∃ a t, qs.flatMap Piece.text = a ++ t ∧ endOfLast (locate 0 qs) = a.length ∧
      ¬Piece.opening <:+: t ++ ['{'] := by
  by_cases hqs : ∃ ps t, qs = ps ++ [.literal t]
  · obtain ⟨ps, t, rfl⟩ := hqs
    have hapart : ∀ before u, ps ≠ before ++ [.literal u] := by
      rintro before u rfl
      simp only [List.append_assoc] at h
      exact Piece.not_isCut_literal_literal u t _ h.of_append
    rw [List.append_assoc] at h
    refine ⟨ps.flatMap Piece.text, t, ?_, ?_, (Piece.isCut_before_iff.1 h.of_append).1.2⟩
    · rw [List.flatMap_append, List.flatMap_singleton]
      rfl
    · rw [endOfLast_locate_concat_literal, endOfLast_locate hapart]
  · have hend := endOfLast_locate fun ps t heq => hqs ⟨ps, t, heq⟩
    exact ⟨qs.flatMap Piece.text, [], (List.append_nil _).symm, hend, by decide⟩

theorem isPartition_scan (s : Text) : IsPartition s (scan s) where
  text_eq := flatMap_text_scan s
  position_eq before segment after h := by
    obtain ⟨qs, p, rs, -, rfl, rfl, -⟩ := exists_of_scan_eq h
    rw [position_ofPiece, flatMap_text_locate]
  literal_ne_nil t place h := (of_literal_mem_scan h).1
  literals_apart before t place u next after h := by
    obtain ⟨qs, p, rest, hps, -, hp, hrest⟩ := exists_of_scan_eq h
    obtain ⟨q, rs, rfl, hq, -⟩ := exists_of_locate_eq_cons hrest
    have hcut := Piece.isCut_ofText s
    rw [hps, of_ofPiece_eq_literal hp, of_ofPiece_eq_literal hq] at hcut
    exact Piece.not_isCut_literal_literal t u rs hcut.of_append
  literal_no_tag t place h := (of_literal_mem_scan h).2
  directive_start before d place t after h := by
    obtain ⟨qs, inner, rs, hps, rfl, -, -, rfl⟩ := exists_of_directive h
    have hcut := Piece.isCut_ofText s
    have htext := text_of_ofText_eq hps
    rw [hps] at hcut
    obtain ⟨a, u, hfront, hend, hopening⟩ := exists_front hcut
    rw [hfront, List.append_assoc] at htext
    rw [hend, hfront, List.length_append, htext]
    exact (Piece.isLeast_opening_iff a u _).2 hopening
  directive_end d place t h := by
    obtain ⟨before, after, hscan⟩ := List.append_of_mem h
    obtain ⟨qs, inner, rs, hps, -, hd, ht, rfl⟩ := exists_of_directive hscan
    have hcut := Piece.isCut_ofText s
    rw [hps] at hcut
    refine ⟨inner, ht, hd, ?_⟩
    rw [text_of_ofText_eq hps]
    exact (Piece.isLeast_closing_iff _ _).2 (Piece.isCut_tag_iff.1 hcut.of_append).1
  trimmed d place t h := by
    obtain ⟨before, after, hscan⟩ := List.append_of_mem h
    obtain ⟨-, inner, -, -, -, rfl, -⟩ := exists_of_directive hscan
    exact Text.trim_trim _

namespace IsPartition

variable {s : Text}

/-- Pieces that make a partition are pieces that cutting gives back. The recursion is over the pieces
that are left, behind those that have been looked at. -/
theorem isCut : ∀ {qs rs : List Piece}, IsPartition s (locate 0 (qs ++ rs)) → Piece.IsCut rs
  | _, [], _ => .nil
  | qs, .tag inner :: rs, h => by
      have hbehind : IsPartition s (locate 0 ((qs ++ [.tag inner]) ++ rs)) := by
        rwa [List.append_assoc]
      have htext := h.text_eq
      rw [flatMap_text_locate, List.flatMap_append, List.flatMap_cons] at htext
      have hmem : directive (Directive.ofInner inner) (qs.flatMap Piece.text).length
          (Piece.tag inner).text ∈ locate 0 (qs ++ .tag inner :: rs) := by
        rw [locate_append_cons]
        exact List.mem_append_right _ List.mem_cons_self
      obtain ⟨enclosed, heq, -, hleast⟩ := h.directive_end _ _ _ hmem
      obtain rfl : inner = enclosed := by simpa [Piece.text] using heq
      rw [← htext] at hleast
      exact .tag ((Piece.isLeast_closing_iff _ _).1 hleast) hbehind.isCut
  | qs, [.literal t], h => by
      have hmem : literal t (qs.flatMap Piece.text).length ∈ locate 0 (qs ++ [.literal t]) := by
        rw [locate_append_cons]
        exact List.mem_append_right _ List.mem_cons_self
      exact .last (h.literal_ne_nil _ _ hmem) (h.literal_no_tag _ _ hmem)
  | qs, .literal t :: .literal u :: rs, h => by
      exact absurd (locate_append_cons qs (.literal t) (.literal u :: rs))
        (h.literals_apart _ t _ u _ _)
  | qs, .literal t :: .tag inner :: rs, h => by
      have hbehind : IsPartition s (locate 0 ((qs ++ [.literal t]) ++ .tag inner :: rs)) := by
        rwa [List.append_assoc]
      have hapart : ∀ ps u, qs ≠ ps ++ [.literal u] := by
        rintro ps u rfl
        rw [List.append_assoc] at h
        exact absurd (locate_append_cons ps (.literal u) _) (h.literals_apart _ u _ t _ _)
      have htext := h.text_eq
      rw [flatMap_text_locate, List.flatMap_append, List.flatMap_cons, List.flatMap_cons] at htext
      have hsegments := locate_append_cons (qs ++ [.literal t]) (.tag inner) rs
      rw [List.append_assoc] at hsegments
      have hleast := h.directive_start _ _ _ _ _ hsegments
      rw [endOfLast_locate_concat_literal, endOfLast_locate hapart, List.flatMap_append,
        List.length_append, List.flatMap_singleton, ← htext] at hleast
      have hliteral := h.literal_ne_nil t (qs.flatMap Piece.text).length (by
        rw [locate_append_cons]
        exact List.mem_append_right _ List.mem_cons_self)
      exact .before hliteral ((Piece.isLeast_opening_iff _ t _).1 hleast) hbehind.isCut

theorem eq_scan {segments : List Segment} (h : IsPartition s segments) : segments = scan s := by
  have hpiece : ∀ segment ∈ segments, ∃ p, segment = ofPiece segment.position p := by
    intro segment hsegment
    match segment with
    | literal t place => exact ⟨.literal t, rfl⟩
    | directive d place t =>
        obtain ⟨inner, rfl, rfl, -⟩ := h.directive_end d place t hsegment
        exact ⟨.tag inner, rfl⟩
  have hplace : ∀ before segment after, segments = before ++ segment :: after →
      segment.position = 0 + (before.flatMap text).length := by
    intro before segment after heq
    rw [Nat.zero_add]
    exact h.position_eq before segment after heq
  obtain ⟨ps, rfl⟩ := exists_locate hpiece hplace
  have hall : IsPartition s (locate 0 ([] ++ ps)) := h
  have htext := h.text_eq
  rw [flatMap_text_locate] at htext
  rw [scan, Piece.ofText_eq_iff.2 ⟨htext, hall.isCut⟩]

end IsPartition

/-- The segments of a text partition it at its tags, and nothing else does. -/
theorem isPartition_iff {s : Text} {segments : List Segment} :
    IsPartition s segments ↔ segments = scan s := by
  constructor
  · exact IsPartition.eq_scan
  · rintro rfl
    exact isPartition_scan s

end Segment

end Stencil
