import Stencil.Proofs.Retention

/-!
# Scanning before and after escaping

A template is scanned twice: as it stands, to protect its tags from a minifier, and escaped, to turn
it into code. Both scans make the same cuts. The segments of the escaped template are the escaped
pieces of the template, each at the place up to which the escaped pieces before it reach, so the
directives of a compilation are the tags that would have been protected. A template in which the
first scan finds no tag is compiled to a function around its escaped text.
-/

namespace Stencil

theorem Piece.tags_map_escaped (ps : List Piece) :
    tags (ps.map escaped) = (tags ps).map Text.escape := by
  induction ps with
  | nil => rfl
  | cons p ps ih =>
      cases p with
      | literal t => exact ih
      | tag inner => exact congrArg₂ List.cons (text_escaped (tag inner)) ih

namespace Segment

/-- A segment has the escaped text of a piece: of literal text as literal text, and of a tag as the
directive that stands between its braces once it is escaped. -/
inductive ShowsEscaped : Piece → Segment → Prop where
  | literal (t : Text) (place : Nat) :
      ShowsEscaped (.literal t) (.literal (Text.escape t) place)
  | tag (inner : Text) (place : Nat) :
      ShowsEscaped (.tag inner) (.directive (Directive.ofInner (Text.escape inner)) place
        (Text.escape (Piece.tag inner).text))

private theorem showsEscaped_ofPiece (p : Piece) (place : Nat) :
    ShowsEscaped p (ofPiece place p.escaped) := by
  match p with
  | .literal t => exact .literal t place
  | .tag inner =>
      have htext := Piece.text_escaped (.tag inner)
      rw [Piece.escaped] at htext ⊢
      rw [ofPiece, htext]
      exact .tag inner place

private theorem forall₂_showsEscaped_locate (ps : List Piece) (place : Nat) :
    List.Forall₂ ShowsEscaped ps (locate place (ps.map Piece.escaped)) := by
  induction ps generalizing place with
  | nil => exact .nil
  | cons p ps ih => exact .cons (showsEscaped_ofPiece p place) (ih _)

private theorem flatMap_text_map_escaped (ps : List Piece) :
    (ps.map Piece.escaped).flatMap Piece.text = ps.flatMap fun p => Text.escape p.text := by
  rw [List.flatMap_map]
  exact List.flatMap_congr fun p _ => Piece.text_escaped p

theorem position_scan_escape {s : Text} {n : Nat} {segment : Segment}
    (h : (scan (Text.escape s))[n]? = some segment) :
    segment.position =
      (((Piece.ofText s).take n).flatMap fun p => Text.escape p.text).length := by
  rw [scan, Piece.ofText_escape, getElem?_locate, Option.map_eq_some_iff] at h
  obtain ⟨p, -, rfl⟩ := h
  rw [position_ofPiece, Nat.zero_add, ← List.map_take, flatMap_text_map_escaped]

private theorem map_snd_directives_scan_escape (s : Text) :
    (directives (scan (Text.escape s))).map Prod.snd =
      (Piece.tags (Piece.ofText s)).map Text.escape := by
  rw [scan, Piece.ofText_escape, directives_locate, Piece.tags_map_escaped, List.map_map]
  exact List.map_id _

/-- The escaped template is cut where the template is: its segments are the escaped pieces of the
template in order, each behind the escaped pieces before it, and its directives are the escaped tags
that are protected in the template. This is what every compilation scans. One that minifies nothing
scans the trimmed template, and gives it back escaped, inside a function, if it has no tag. -/
theorem scan_escape (s : Text) (f : Placeholder.Format) :
    List.Forall₂ ShowsEscaped (Piece.ofText s) (scan (Text.escape s)) ∧
      (∀ n segment, (scan (Text.escape s))[n]? = some segment →
        segment.position =
          (((Piece.ofText s).take n).flatMap fun p => Text.escape p.text).length) ∧
      (directives (scan (Text.escape s))).map Prod.snd = (f.protectTags s).kept.map Text.escape ∧
      ∀ c : Compiler,
        (∀ draft, (Stage.runAll c Stage.all { source := s } {}).result = .ok draft →
          (directives draft.segments).map Prod.snd
            = (f.protectTags draft.source).kept.map Text.escape) ∧
        (c.options.wantsMinify (Text.trim s) = false →
          (∀ draft, (Stage.runAll c Stage.all { source := s } {}).result = .ok draft →
            draft.source = Text.trim s) ∧
          (Piece.tags (Piece.ofText s) = [] →
            (c.compile s).result =
              .ok (c.settings.functionOpening ++ Text.escape (Text.trim s) ++ functionClosing))) := by
  refine ⟨?_, fun n segment => position_scan_escape, map_snd_directives_scan_escape s,
    fun c => ⟨fun draft hdraft => ?_, fun hminify => ⟨fun draft hdraft => ?_, fun htags => ?_⟩⟩⟩
  · rw [scan, Piece.ofText_escape]
    exact forall₂_showsEscaped_locate _ 0
  · rw [(Stage.of_result_runAll_all hdraft).2]
    exact map_snd_directives_scan_escape draft.source
  · have hminified := (Stage.of_result_runAll_all hdraft).1
    rw [Compiler.minified_of_not_wantsMinify hminify] at hminified
    exact (Except.ok.inj hminified).symm
  · exact Compiler.result_compile_of_not_hasTag hminify (Piece.tags_eq_nil_iff.1 htags)

/-- Closing braces alone make no tag. -/
theorem scan_escape_closing :
    Piece.tags (Piece.ofText " it's\r\n\x7d\x7d ".toList) = [] ∧
      ({} : Options).wantsMinify (Text.trim " it's\r\n\x7d\x7d ".toList) = false ∧
      (({ minifier := .keep } : Compiler).compile " it's\r\n\x7d\x7d ".toList).result =
        .ok "function(m0)\x7breturn 'it\\'s\\n\x7d\x7d';\x7d".toList := by
  have htags : Piece.tags (Piece.ofText " it's\r\n\x7d\x7d ".toList) = [] :=
    Piece.tags_eq_nil_iff.2 (Piece.not_hasTag_of_not_mem (by decide))
  obtain ⟨-, -, -, hcompile⟩ :=
    scan_escape " it's\r\n\x7d\x7d ".toList ({} : Settings).tagPlaceholders
  refine ⟨htags, rfl, ?_⟩
  rw [((hcompile { minifier := .keep }).2 rfl).2 htags]
  exact congrArg Except.ok (by decide)

end Segment

end Stencil
