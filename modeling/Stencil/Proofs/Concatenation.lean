import Stencil.Proofs.Padding

/-!
# Templates side by side

A template is compiled piece by piece, so what is compiled for two templates side by side is what
is compiled for each, unless something goes across the seam. Braces at the end of the first could
begin a tag with those of the second, and blanks at the seam would be removed from one template
alone, or make one line break of two. Where this is excluded the pieces are those of both, but for
literal text at the seam, which becomes one piece. Blocks of the first that nest leave the tracker
as they found it. The second template can be anything: its errors are the same, at places that are
moved.
-/

namespace Stencil

theorem Text.isOrdinary_of_not_isBlank {c : Char} (h : isBlank c = false) : IsOrdinary c := by
  constructor <;> (rintro rfl; cases h)

/-! ### Pieces side by side -/

namespace Piece

/-- Pieces side by side, where literal text at the seam becomes one piece. -/
def join : List Piece → List Piece → List Piece
  | [], qs => qs
  | [literal t], qs => literal (t ++ front qs) :: behind qs
  | p :: ps, qs => p :: join ps qs

/-- No tag begins in the literal text at the end, whatever follows it. -/
def EndsApart (ps : List Piece) : Prop :=
  ∀ t, ps.getLast? = some (literal t) → ¬opening <:+: t ++ ['{']

variable {ps qs : List Piece}

theorem join_tag (inner : Text) (ps qs : List Piece) :
    join (tag inner :: ps) qs = tag inner :: join ps qs := by
  rw [join]
  rintro _ ⟨⟩

theorem EndsApart.of_cons {p : Piece} (h : EndsApart (p :: ps)) : EndsApart ps := by
  intro t ht
  refine h t ?_
  rw [List.getLast?_cons, ht]
  rfl

theorem IsCut.ofText_append (h : IsCut ps) (hlast : EndsApart ps) (r : Text) :
    ofText (ps.flatMap text ++ r) = join ps (ofText r) := by
  induction h with
  | nil => rfl
  | last hne htag =>
      rw [List.flatMap_singleton, text, ofText_append_of_not_opening hne (hlast _ rfl)]
      rfl
  | @before t inner ps hne hopening hps ih =>
      rw [List.flatMap_cons, text, List.append_assoc, ofText_append_of_not_opening hne hopening,
        ih hlast.of_cons, join_tag]
      -- A tag has no literal text in front of it.
      exact congrArg (literal · :: Piece.tag inner :: join ps (ofText r)) (List.append_nil t)
  | tag hinner hps ih =>
      rw [List.flatMap_cons, text, List.append_assoc, List.append_assoc, List.append_assoc,
        ofText_of_cut (hinner.cutClosing?_eq _), ih hlast.of_cons, join_tag]

private theorem map_escaped_join (hfirst : ∀ c ∈ (front qs).head?, Text.IsOrdinary c) :
    (join ps qs).map escaped = join (ps.map escaped) (qs.map escaped) := by
  induction ps with
  | nil => rfl
  | cons p ps ih =>
      match p, ps with
      | tag inner, ps =>
          rw [join_tag, List.map_cons, ih, List.map_cons]
          exact (join_tag _ _ _).symm
      | literal t, [] =>
          have hseam : Text.escape (t ++ front qs) = Text.escape t ++ Text.escape (front qs) :=
            Text.escape_append hfirst t
          simp [join, escaped, hseam]
      | literal t, q :: ps => exact congrArg (literal (Text.escape t) :: ·) ih

/-- Texts side by side are cut as each of them is. -/
theorem ofText_append_eq_join {x y : Text} (hopening : ∀ t, literal t ∈ ofText x → ¬opening <:+: t)
    (hbrace : '{' ∉ x.getLast?) : ofText (x ++ y) = join (ofText x) (ofText y) := by
  have hapart : EndsApart (ofText x) := by
    intro t ht hwithin
    obtain ⟨before, hpieces⟩ := List.getLast?_eq_some_iff.1 ht
    have hx := flatMap_text_ofText x
    rw [hpieces, List.flatMap_append, List.flatMap_singleton, text] at hx
    rcases List.infix_concat_iff.1 hwithin with hend | hwithin
    · obtain ⟨front, hfront⟩ := hend
      rw [opening, List.append_cons, List.append_left_inj] at hfront
      rw [← hfront, ← List.append_assoc] at hx
      exact hbrace (by rw [← hx, List.getLast?_concat]; rfl)
    · exact hopening t (List.mem_of_getLast? ht) hwithin
  have happend := (isCut_ofText x).ofText_append hapart y
  rwa [flatMap_text_ofText] at happend

/-! ### Code for pieces side by side -/

def emitCode (s : Settings) (place : Nat) (ps : List Piece) (t : Tracker) : Step Text :=
  (Segment.emitAll s (Segment.locate place ps) t).map Fragments.code

variable {s : Settings} {t : Tracker} {place : Nat}

theorem emitCode_cons (p : Piece) : emitCode s place (p :: ps) t =
    ((Segment.ofPiece place p).emit s t).andThen fun code t =>
      (emitCode s (place + p.text.length) ps t).map (code ++ ·) := by
  simp only [emitCode, Segment.locate, Segment.emitAll, Step.andThen_map, Step.map_map]
  rfl

theorem emitCode_append : emitCode s place (ps ++ qs) t =
    (Segment.emitAll s (Segment.locate place ps) t).andThen fun fragments t =>
      (emitCode s (place + (ps.flatMap text).length) qs t).map (fragments.code ++ ·) := by
  simp only [emitCode, Segment.locate_append, Segment.emitAll_append, Step.andThen_map,
    Step.map_map, Function.comp_def, Fragments.code, List.flatten_append]

theorem emitCode_literal (u : Text) : emitCode s place (literal u :: ps) t =
    (emitCode s (place + u.length) ps t).map (u ++ ·) :=
  emitCode_cons (literal u)

private theorem emitCode_front (qs : List Piece) : emitCode s place qs t =
    (emitCode s (place + (front qs).length) (behind qs) t).map (front qs ++ ·) := by
  match qs with
  | [] => rfl
  | tag _ :: _ => exact (Step.map_id _).symm
  | literal u :: qs => exact emitCode_literal u

/-- It makes no difference to the code whether literal text at the seam is one piece or two. -/
theorem emitCode_join : emitCode s place (join ps qs) t = emitCode s place (ps ++ qs) t := by
  induction ps generalizing place t with
  | nil => rfl
  | cons p ps ih =>
      match p, ps with
      | tag inner, ps =>
          rw [join_tag, emitCode_cons, List.cons_append, emitCode_cons]
          simp only [ih]
      | literal u, [] =>
          rw [join, emitCode_literal, List.singleton_append, emitCode_literal, emitCode_front qs,
            Step.map_map, List.length_append, Nat.add_assoc]
          simp only [List.append_assoc, Function.comp_def]
      | literal u, q :: ps =>
          have hjoin : join (literal u :: q :: ps) qs = literal u :: join (q :: ps) qs := rfl
          rw [hjoin, emitCode_literal, List.cons_append, emitCode_literal, ih]

end Piece

namespace Stage

open Piece

variable {s : Settings} {ps : List Piece}

private theorem map_code_emitSegments (s : Settings) (place : Nat) (ps : List Piece) (t : Tracker) :
    (emitSegments s (Segment.locate place ps) t).map Fragments.code =
      (emitCode s place ps t).andThen fun code t =>
        (Tracker.checkBalance s t).map fun _ => code := by
  simp only [emitSegments, emitCode, Step.andThen_map, Step.map_andThen, Step.map_map]
  rfl

/-- Pieces that begin behind others have their errors there. -/
theorem emitSegments_locate (s : Settings) (place : Nat) (ps : List Piece) (t : Tracker) :
    emitSegments s (Segment.locate place ps) t =
      (emitSegments s (Segment.locate 0 ps) t).relocate (· + (place : Int)) := by
  refine emitSegments_relocate s (Segment.forall₂_moved_locate fun k _ => ?_) t
  omega

/-- Behind balanced pieces, others are turned into the code that they are turned into alone. -/
theorem result_emitSegments_join (hnested : WellNested (marks ps)) (qs : List Piece) :
    ((emitSegments s (Segment.locate 0 (join ps qs)) {}).map Fragments.code).result =
      (((emitSegments s (Segment.locate 0 qs) {}).relocate
        (· + ((ps.flatMap text).length : Int))).map
          fun fragments => (codeAll s 0 ps).code ++ fragments.code).result := by
  have hyields := Piece.emitAll_yields (s := s) (t := {}) 0 (hnested.nestAll_eq [])
  rw [hnested.foldl_depthAfter] at hyields
  have hcode := map_code_emitSegments s (ps.flatMap text).length qs {}
  have halone := congrArg (Step.map ((codeAll s 0 ps).code ++ ·)) hcode
  rw [Step.map_map, Step.andThen_map] at halone
  simp only [Step.map_map] at halone
  rw [map_code_emitSegments, emitCode_join, emitCode_append, Step.andThen_assoc,
    hyields.result_andThen, Nat.zero_add, ← emitSegments_locate, Step.map_andThen]
  exact (congrArg Step.result halone).symm

end Stage

/-! ### Compilation -/

theorem Text.mem_getLast?_of_trimLeft {a : Text} {x : Char} (h : x ∈ (trimLeft a).getLast?) :
    x ∈ a.getLast? := by
  obtain ⟨blanks, hblanks⟩ : trimLeft a <:+ a := List.dropWhile_suffix _
  rw [← hblanks, List.getLast?_append, Option.mem_def.1 h]
  rfl

private theorem Options.not_wantsMinify_of_lineCount_le {options : Options} {s t : Text}
    (h : Text.lineCount s ≤ Text.lineCount t) (ht : options.wantsMinify t = false) :
    options.wantsMinify s = false := by
  rw [wantsMinify, Bool.or_eq_false_iff, Bool.and_eq_false_iff, decide_eq_false_iff_not] at ht ⊢
  exact ht.imp_right (Or.imp_right fun hone hmore => hone (hmore.trans_le h))

section Seam

variable {a b : Text} (hlast : ∀ x ∈ a.getLast?, Text.isBlank x = false)
include hlast

theorem Text.trim_eq_trimLeft : trim a = trimLeft a :=
  trimRight_eq_self fun x hx => hlast x (mem_getLast?_of_trimLeft hx)

variable (hfirst : ∀ x ∈ b.head?, Text.isBlank x = false)
include hfirst

theorem Text.trim_append : trim (a ++ b) = trim a ++ trim b := by
  have hb : trimLeft b = b := trimLeft_eq_self hfirst
  have hleft : trimLeft (a ++ b) = trimLeft a ++ b := by
    rw [trimLeft_append]
    split_ifs with hblank
    · rw [hb, hblank, List.nil_append]
    · rfl
  rw [trim_eq_trimLeft hlast, trim, hleft, trimRight_append, trim, hb]
  split_ifs with hblank
  · rw [hblank, List.append_nil]
    exact trim_eq_trimLeft hlast
  · rfl

theorem Text.lineCount_trim_append :
    lineCount (trim (a ++ b)) + 1 = lineCount (trim a) + lineCount (trim b) := by
  rw [trim_append hlast hfirst]
  exact lineCount_append (fun x hx => isOrdinary_of_not_isBlank (isBlank_of_head?_trim hx)) _

theorem Piece.ofSource_append (hopening : ∀ t, literal t ∈ ofText a → ¬opening <:+: t)
    (hbrace : '{' ∉ a.getLast?) : ofSource (a ++ b) = join (ofSource a) (ofSource b) := by
  have hliterals : ∀ t, literal t ∈ ofText (Text.trim a) → ¬opening <:+: t := by
    intro t ht hwithin
    obtain ⟨u, hu, htu⟩ := exists_literal_of_trim ht
    exact hopening u hu (hwithin.trans htu)
  have hend : '{' ∉ (Text.trim a).getLast? := by
    rw [Text.trim_eq_trimLeft hlast]
    exact fun hmem => hbrace (Text.mem_getLast?_of_trimLeft hmem)
  have hfront : ∀ x ∈ (front (ofText (Text.trim b))).head?, Text.IsOrdinary x := by
    intro x hx
    obtain ⟨rest, hrest⟩ := front_isPrefix (Text.trim b)
    refine Text.isOrdinary_of_not_isBlank (Text.isBlank_of_head?_trim (s := b) ?_)
    rw [← hrest, List.head?_append, Option.mem_def.1 hx]
    rfl
  rw [ofSource, ofSource, ofSource, ofText_escape, ofText_escape, ofText_escape,
    Text.trim_append hlast hfirst, ofText_append_eq_join hliterals hend, map_escaped_join hfront]

end Seam

namespace Compiler

variable {c : Compiler} {source a b : Text}

private theorem result_compile_eq_mapError (h : c.options.wantsMinify (Text.trim source) = false) :
    (c.compile source).result =
      (((c.emission source).map Fragments.code).result.map c.wrapped).mapError
        CompileError.unbalanced := by
  rw [result_compile h, Step.map]
  cases (c.emission source).result <;> rfl

/-- Two templates side by side are compiled to the code of both if there is code for the second. If
there is none, they fail with the error of the second, whose place moves behind the first. In the
first, no braces open a tag but those of its tags, and the blocks nest. No blanks meet at the
seam. -/
theorem result_compile_append (hopening : ∀ t, .literal t ∈ Piece.ofText a → ¬Piece.opening <:+: t)
    (hbrace : '{' ∉ a.getLast?) (hnested : WellNested (Piece.marks (Piece.ofSource a)))
    (hlast : ∀ x ∈ a.getLast?, Text.isBlank x = false)
    (hfirst : ∀ x ∈ b.head?, Text.isBlank x = false)
    (hminify : c.options.wantsMinify (Text.trim (a ++ b)) = false) :
    ∃ body, (c.compile a).result = .ok (c.wrapped body) ∧
      (∀ code, (c.compile b).result = .ok code → ∃ rest, code = c.wrapped rest ∧
        (c.compile (a ++ b)).result = .ok (c.wrapped (body ++ rest))) ∧
      ∀ e, (c.compile (a ++ b)).result = .error e ↔
        ∃ cause, (c.compile b).result = .error cause ∧
          e = cause.relocate (· + ((Text.escape (Text.trimLeft a)).length : Int)) := by
  have hlines := Text.lineCount_trim_append hlast hfirst
  have ha : c.options.wantsMinify (Text.trim a) = false :=
    Options.not_wantsMinify_of_lineCount_le
      (by have := Text.lineCount_pos (Text.trim b); omega) hminify
  have hb : c.options.wantsMinify (Text.trim b) = false :=
    Options.not_wantsMinify_of_lineCount_le
      (by have := Text.lineCount_pos (Text.trim a); omega) hminify
  have htext : (Piece.ofSource a).flatMap Piece.text = Text.escape (Text.trimLeft a) := by
    rw [Piece.ofSource, Piece.flatMap_text_ofText, Text.trim_eq_trimLeft hlast]
  have hseam := Stage.result_emitSegments_join (s := c.settings) hnested (Piece.ofSource b)
  rw [← Piece.ofSource_append hlast hfirst hopening hbrace, htext] at hseam
  have hboth := result_compile_eq_mapError hminify
  rw [emission, hseam] at hboth
  refine ⟨_, result_compile_of_wellNested ha hnested, ?_⟩
  rw [hboth, result_compile_eq_mapError hb, emission]
  obtain ⟨result, _, _⟩ := Stage.emitSegments c.settings (Segment.locate 0 (Piece.ofSource b)) {}
  cases result with
  | ok fragments =>
      constructor
      · intro code hcode
        exact ⟨fragments.code, (Except.ok.inj hcode).symm, rfl⟩
      · intro e
        refine iff_of_false (fun h => by cases h) ?_
        rintro ⟨cause, hcause, -⟩
        cases hcause
  | error e =>
      constructor
      · intro code hcode
        cases hcode
      · refine fun e' => ⟨fun h => ⟨.unbalanced e, rfl, (Except.error.inj h).symm⟩, ?_⟩
        rintro ⟨cause, hcause, rfl⟩
        rw [← Except.error.inj hcause]
        rfl

/-- A close without an open block, behind a template with a blank that is removed. -/
theorem result_compile_append_unmatched :
    (∀ t, .literal t ∈ Piece.ofText " a\x7b\x7bb\x7d\x7d".toList → ¬Piece.opening <:+: t) ∧
      WellNested (Piece.marks (Piece.ofSource " a\x7b\x7bb\x7d\x7d".toList)) ∧
      (({ settings := { strictScopes := true }, minifier := .keep } : Compiler).compile
        " a\x7b\x7bb\x7d\x7d\x7b\x7b/each\x7d\x7d".toList).result =
          .error (.unbalanced ⟨.unmatched .each, some 6⟩) := by
  have hpieces : Piece.ofText " a\x7b\x7bb\x7d\x7d".toList =
      [.literal " a".toList, .tag "b".toList] := by
    change Piece.ofText (" a".toList ++
      (Piece.opening ++ "b".toList ++ Piece.closing ++ [])) = _
    rw [Piece.ofText_append (by decide) (by decide), Piece.ofText_tag (by decide), Piece.ofText]
    rfl
  have hopening : ∀ t, .literal t ∈ Piece.ofText " a\x7b\x7bb\x7d\x7d".toList →
      ¬Piece.opening <:+: t := by
    intro t ht
    rw [hpieces] at ht
    obtain rfl : t = " a".toList := by simpa using ht
    decide
  have hnested : WellNested (Piece.marks (Piece.ofSource " a\x7b\x7bb\x7d\x7d".toList)) := by
    rw [Piece.ofSource, Piece.ofText_escape, Piece.ofText_trim, hpieces]
    exact .nil
  let c : Compiler := { settings := { strictScopes := true }, minifier := .keep }
  have hclose : (c.compile "\x7b\x7b/each\x7d\x7d".toList).result =
      .error (.unbalanced ⟨.unmatched .each, some 0⟩) := by
    have hsource : Piece.ofSource "\x7b\x7b/each\x7d\x7d".toList = [.tag "/each".toList] :=
      Piece.ofText_tags ["/each".toList] (by decide)
    rw [result_compile rfl, emission, hsource]
    rfl
  have hlast : ∀ x ∈ " a\x7b\x7bb\x7d\x7d".toList.getLast?, Text.isBlank x = false := by
    rintro x ⟨⟩
    rfl
  have hfirst : ∀ x ∈ "\x7b\x7b/each\x7d\x7d".toList.head?, Text.isBlank x = false := by
    rintro x ⟨⟩
    rfl
  obtain ⟨-, -, -, herror⟩ :=
    result_compile_append (c := c) hopening (by decide) hnested hlast hfirst rfl
  exact ⟨hopening, hnested, (herror _).2 ⟨_, hclose, rfl⟩⟩

end Compiler

end Stencil
