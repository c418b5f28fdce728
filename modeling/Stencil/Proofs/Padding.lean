import Stencil.Proofs.Cuts
import Stencil.Proofs.Reading

/-!
# Blanks inside a tag

Which blanks stand around the keyword and the expression of a tag makes no difference to the code,
as long as they are no line breaks: a line break is escaped before tags are read, and what it is
escaped to is a part of the expression. The blanks do make a difference to the places of what stands
behind the tag, and so to the place that an error reports. A run over segments that have moved is
the run over the segments, with the place in its error moved.
-/

namespace Stencil

/-! ### Places that move -/

def Unbalanced.relocate (g : Int → Int) (e : Unbalanced) : Unbalanced :=
  { e with position := e.position.map g }

def CompileError.relocate (g : Int → Int) : CompileError → CompileError
  | unbalanced cause => unbalanced (cause.relocate g)
  | e => e

namespace Step

variable {α β : Type}

def relocate (g : Int → Int) (s : Step α) : Step α :=
  ⟨s.result.mapError (Unbalanced.relocate g), s.tracker, s.moments⟩

theorem relocate_map (g : Int → Int) (s : Step α) (f : α → β) :
    (s.map f).relocate g = (s.relocate g).map f := by
  obtain ⟨result, t, moments⟩ := s
  cases result <;> rfl

theorem relocate_andThen (g : Int → Int) (s : Step α) (next : α → Tracker → Step β) :
    (s.andThen next).relocate g = (s.relocate g).andThen fun a t => (next a t).relocate g := by
  obtain ⟨result, t, moments⟩ := s
  cases result <;> rfl

end Step

section Relocation

variable {g : Int → Int} (s : Settings)

private theorem Tracker.close_relocate (b : Block) (position : Option Int) (t : Tracker) :
    close s b (position.map g) t = (close s b position t).relocate g := by
  rw [close, close]
  split
  · rfl
  · split_ifs <;> rfl

private theorem Tracker.checkBalance_relocate (t : Tracker) :
    (checkBalance s t).relocate g = checkBalance s t := by
  rw [checkBalance]
  split_ifs <;> rfl

private theorem Directive.fragment_relocate (d : Directive) (position : Option Int) (t : Tracker) :
    d.fragment s (position.map g) t = (d.fragment s position t).relocate g := by
  obtain ⟨kind, e⟩ := d
  cases kind with
  | each | hide | selectedIf | checkedIf | partialCall | key | interpolation => rfl
  | eachEnd =>
      simp only [fragment, Tracker.exit, Tracker.close_relocate, Step.relocate_map,
        Step.relocate_andThen]
      rfl
  | hideEnd => simp only [fragment, Tracker.hideClose, Tracker.close_relocate, Step.relocate_map]

namespace Segment

/-- The same literal text, or the same directive with its place moved. -/
inductive Moved (g : Int → Int) : Segment → Segment → Prop where
  | literal (t : Text) (place next : Nat) : Moved g (literal t place) (literal t next)
  | directive (d : Directive) (t u : Text) {place next : Nat} (h : (next : Int) = g place) :
      Moved g (directive d place t) (directive d next u)

private theorem emit_relocate {a b : Segment} (h : Moved g a b) (t : Tracker) :
    b.emit s t = (a.emit s t).relocate g := by
  cases h with
  | literal => rfl
  | @directive d _ _ place next hnext =>
      have hplace : some (next : Int) = (some (place : Int)).map g := congrArg some hnext
      rw [emit, emit, Directive.emit, Directive.emit, hplace, Directive.fragment_relocate,
        Step.relocate_andThen]
      rfl

private theorem emitAll_relocate {as bs : List Segment} (h : List.Forall₂ (Moved g) as bs)
    (t : Tracker) : emitAll s bs t = (emitAll s as t).relocate g := by
  induction h generalizing t with
  | nil => rfl
  | cons hfirst _ ih =>
      rw [emitAll, emitAll, emit_relocate s hfirst, Step.relocate_andThen]
      simp only [ih, Step.relocate_map]

end Segment

theorem Stage.emitSegments_relocate {as bs : List Segment}
    (h : List.Forall₂ (Segment.Moved g) as bs) (t : Tracker) :
    emitSegments s bs t = (emitSegments s as t).relocate g := by
  rw [emitSegments, emitSegments, Segment.emitAll_relocate s h, Step.relocate_andThen]
  simp only [Step.relocate_map, Tracker.checkBalance_relocate]

end Relocation

namespace Segment

theorem forall₂_moved_locate {g : Int → Int} {ps : List Piece} {place next : Nat}
    (h : ∀ k ≤ (ps.flatMap Piece.text).length, ((next + k : Nat) : Int) = g (place + k : Nat)) :
    List.Forall₂ (Moved g) (locate place ps) (locate next ps) := by
  induction ps generalizing place next with
  | nil => exact .nil
  | cons p ps ih =>
      rw [List.flatMap_cons, List.length_append] at h
      refine .cons ?_ (ih fun k hk => ?_)
      · match p with
        | .literal t => exact .literal t place next
        | .tag inner => exact .directive _ _ _ (h 0 (Nat.zero_le _))
      · have hmoved := h (p.text.length + k) (by omega)
        rwa [← Nat.add_assoc, ← Nat.add_assoc] at hmoved

/-- Where a place is after what begins at `place` has become longer by `shift`. -/
def movedBehind (place : Nat) (shift position : Int) : Int :=
  if position ≤ place then position else position + shift

private theorem forall₂_moved_tag {before after : List Piece} {inner other : Text}
    (h : Directive.ofInner other = Directive.ofInner inner) :
    List.Forall₂ (Moved (movedBehind (before.flatMap Piece.text).length
        (other.length - inner.length)))
      (locate 0 (before ++ .tag inner :: after)) (locate 0 (before ++ .tag other :: after)) := by
  rw [locate_append, locate_append]
  refine List.rel_append (forall₂_moved_locate fun k hk => ?_) (.cons ?_ (forall₂_moved_locate ?_))
  · rw [movedBehind, if_pos (by omega)]
  · rw [ofPiece, ofPiece, h]
    refine .directive _ _ _ ?_
    rw [movedBehind, if_pos (by omega)]
  · intro k _
    have htag (i : Text) : (Piece.tag i).text.length = i.length + 4 := by
      simp [Piece.text, Piece.opening, Piece.closing]
    rw [htag, htag, movedBehind, if_neg (by omega)]
    omega

end Segment

/-! ### Blanks around the parts of a tag -/

/-- A blank that breaks no line. -/
def Text.IsSpacing (c : Char) : Prop := isBlank c = true ∧ IsOrdinary c

instance (c : Char) : Decidable (Text.IsSpacing c) := inferInstanceAs (Decidable (_ ∧ _))

theorem Text.IsSpacing.ne {c d : Char} (h : IsSpacing c) (hd : isBlank d = false) : c ≠ d := by
  rintro rfl
  rw [h.1] at hd
  cases hd

/-- Blanks around the keyword and the expression of a tag. -/
structure Padding where
  front : Text
  middle : Text
  back : Text
  front_spacing : ∀ c ∈ front, Text.IsSpacing c
  middle_spacing : ∀ c ∈ middle, Text.IsSpacing c
  back_spacing : ∀ c ∈ back, Text.IsSpacing c

namespace Padding

variable (p q : Padding) (kind : Kind) (e : Text)

/-- The keyword with the blanks in front of it and behind it. -/
def head : Text := p.front ++ kind.keyword ++ p.middle

/-- The inside of a tag with a keyword and an expression. -/
def around : Text := p.head kind ++ (e ++ p.back)

def length : Nat := p.front.length + p.middle.length + p.back.length

theorem length_around : (p.around kind e).length = p.length + (kind.keyword.length + e.length) := by
  simp only [around, head, length, List.length_append]
  omega

theorem of_mem_head {c : Char} (h : c ∈ p.head kind) :
    Text.IsOrdinary c ∧ c ≠ '\x27' ∧ c ≠ '}' := by
  have hspacing : ∀ d, Text.IsSpacing d → Text.IsOrdinary d ∧ d ≠ '\x27' ∧ d ≠ '}' :=
    fun d hd => ⟨hd.2, hd.ne rfl, hd.ne rfl⟩
  rw [head, List.mem_append, List.mem_append] at h
  rcases h with (hfront | hkeyword) | hmiddle
  · exact hspacing c (p.front_spacing c hfront)
  · obtain ⟨hordinary, hquote, -, hbrace⟩ := kind.of_mem_keyword c hkeyword
    exact ⟨hordinary, hquote, hbrace⟩
  · exact hspacing c (p.middle_spacing c hmiddle)

theorem isOrdinary_of_head?_back {r : Text} (hr : ∀ c ∈ r.head?, Text.IsOrdinary c) :
    ∀ c ∈ (p.back ++ r).head?, Text.IsOrdinary c := by
  intro c hc
  match hback : p.back with
  | [] =>
      rw [hback] at hc
      exact hr c hc
  | d :: back =>
      rw [hback] at hc
      obtain rfl := Option.some.inj hc
      exact (p.back_spacing d (by rw [hback]; exact List.mem_cons_self)).2

theorem escape_around : Text.escape (p.around kind e) = p.around kind (Text.escape e) := by
  have hback : Text.escape p.back = p.back :=
    Text.escape_eq_self fun c hc => ⟨(p.back_spacing c hc).2, (p.back_spacing c hc).ne rfl⟩
  have hnil := p.isOrdinary_of_head?_back (r := []) (by simp)
  rw [List.append_nil] at hnil
  rw [around, Text.escape_append_of_plain fun c hc =>
    ⟨(p.of_mem_head kind hc).1, (p.of_mem_head kind hc).2.1⟩, Text.escape_append hnil, hback]
  rfl

theorem ofInner_around :
    Directive.ofInner (p.around kind e) = Directive.ofInner (kind.keyword ++ e) := by
  have hfront : ∀ c ∈ p.front, Text.isBlank c = true := fun c hc => (p.front_spacing c hc).1
  have hmiddle : ∀ c ∈ p.middle, Text.isBlank c = true := fun c hc => (p.middle_spacing c hc).1
  have hback : ∀ c ∈ p.back, Text.isBlank c = true := fun c hc => (p.back_spacing c hc).1
  have hexpression : Text.trim (p.middle ++ (e ++ p.back)) = Text.trim e := by
    rw [Text.trim_blanks_append hmiddle, Text.trim_append_blanks hback]
  have haround : Directive.ofInner (p.around kind e) =
      Directive.ofInner (kind.keyword ++ (p.middle ++ (e ++ p.back))) := by
    rw [← Directive.ofInner_trim, around, head, List.append_assoc, List.append_assoc,
      Text.trim_blanks_append hfront, Directive.ofInner_trim]
  rw [haround]
  by_cases hkind : kind = .interpolation
  · subst hkind
    rw [← Directive.ofInner_trim, ← Directive.ofInner_trim (_ ++ e)]
    exact congrArg Directive.ofInner hexpression
  · rw [Directive.ofInner_keyword kind hkind, Directive.ofInner_keyword kind hkind, hexpression]

theorem isEnclosed_around {p q : Padding} {kind : Kind} {e : Text}
    (hback : p.back ≠ [] → q.back ≠ []) (h : Piece.IsEnclosed (p.around kind e)) : Piece.IsEnclosed (q.around kind e) := by
  have hhead (p : Padding) : '}' ∉ p.head kind := fun hmem => (p.of_mem_head kind hmem).2.2 rfl
  have hclosing (p : Padding) : '}' ∉ p.back := fun hmem => (p.back_spacing _ hmem).ne rfl rfl
  rw [around, Piece.isEnclosed_append_iff (hhead _)] at h ⊢
  by_cases hq : q.back = []
  · rwa [hq, ← of_not_not (mt hback (not_not.2 hq))]
  · rw [Piece.isEnclosed_append_iff_of_ne_nil hq (hclosing q)]
    by_cases hp : p.back = []
    · rw [hp, List.append_nil] at h
      exact fun hwithin => h (hwithin.trans (List.prefix_append e _).isInfix)
    · exact (Piece.isEnclosed_append_iff_of_ne_nil hp (hclosing p)).1 h

theorem lineCount_around (a b : Text) :
    Text.lineCount (a ++ ((Piece.tag (p.around kind e)).text ++ b)) + 2 =
      Text.lineCount a + Text.lineCount e + Text.lineCount b := by
  have htext : (Piece.tag (p.around kind e)).text ++ b =
      (Piece.opening ++ p.head kind) ++ (e ++ ((p.back ++ Piece.closing) ++ b)) := by
    simp [Piece.text, around]
  have hfront : ∀ c ∈ Piece.opening ++ p.head kind, Text.IsOrdinary c := by
    intro c hc
    rcases List.mem_append.1 hc with hopening | hhead
    · obtain rfl : c = '{' := by simpa [Piece.opening] using hopening
      decide
    · exact (p.of_mem_head kind hhead).1
  have hback : ∀ c ∈ p.back ++ Piece.closing, Text.IsOrdinary c := by
    intro c hc
    rcases List.mem_append.1 hc with hback | hclosing
    · exact (p.back_spacing c hback).2
    · obtain rfl : c = '}' := by simpa [Piece.closing] using hclosing
      decide
  have htag : ∀ c ∈ ((Piece.tag (p.around kind e)).text ++ b).head?, Text.IsOrdinary c := by
    intro c hc
    obtain rfl := Option.some.inj hc
    decide
  have hrest : ∀ c ∈ ((p.back ++ Piece.closing) ++ b).head?, Text.IsOrdinary c := by
    rw [List.append_assoc]
    refine p.isOrdinary_of_head?_back fun c hc => ?_
    obtain rfl := Option.some.inj hc
    decide
  have hcount := Text.lineCount_append htag a
  have hinner := Text.lineCount_append hrest e
  rw [Text.lineCount_append_of_ordinary hback] at hinner
  rw [htext, Text.lineCount_append_of_ordinary hfront] at hcount
  rw [htext]
  omega

end Padding

/-! ### Compilation -/

namespace Piece

variable {source inner : Text} {before after : List Piece}

theorem ofSource_of_ofText_eq (h : ofText source = before ++ tag inner :: after) :
    ofSource source =
      (trimFront before).map escaped ++ tag (Text.escape inner) ::
        (trimBack after).map escaped := by
  rw [ofSource, ofText_escape, ofText_trim, h, trimFront_append_tag, trimBack_append_tag,
    List.map_append, List.map_cons]
  rfl

/-- Where the tag begins in the escaped template. -/
theorem flatMap_text_map_escaped_trimFront (h : IsCut (before ++ tag inner :: after)) :
    ((trimFront before).map escaped).flatMap text =
      Text.escape (Text.trimLeft (before.flatMap text)) := by
  have hcut := ((isCut_append_tag_iff before).1 h).1
  have htext := hcut.trimFront.flatMap_text_map_escaped
  have hbefore := trimLeft_append_tag (before.flatMap text) [] []
  have hbrace : ∀ c ∈ ((tag []).text ++ []).head?, Text.IsOrdinary c := by
    intro c hc
    obtain rfl := Option.some.inj hc
    decide
  rw [hcut.flatMap_text_trimFront, trimFront_append_tag, List.flatMap_append,
    List.flatMap_singleton, ← List.append_nil (tag []).text, hbefore,
    Text.escape_append hbrace, List.map_append, List.flatMap_append] at htext
  exact List.append_cancel_right htext

end Piece

namespace Compiler

variable {c : Compiler} {source changed : Text}

private theorem result_compile_of_emission {g : Int → Int}
    (hsource : c.options.wantsMinify (Text.trim source) = false)
    (hchanged : c.options.wantsMinify (Text.trim changed) = false)
    (h : c.emission changed = (c.emission source).relocate g) :
    (c.compile changed).result = (c.compile source).result.mapError (CompileError.relocate g) := by
  rw [result_compile hsource, result_compile hchanged, h, Step.relocate]
  cases (c.emission source).result <;> rfl

private theorem wantsMinify_eq_of_lineCount {s t : Text} (h : Text.lineCount s = Text.lineCount t) :
    c.options.wantsMinify s = c.options.wantsMinify t := by
  rw [Options.wantsMinify, Options.wantsMinify, h]

/-- Blanks around the keyword and the expression of a tag can be replaced by others, without line
breaks, and the code stays the same. An error stays the same but for its place, which moves with
what stands behind the tag. -/
theorem result_compile_around {before after : List Piece} {kind : Kind} {e : Text} {p q : Padding}
    (hsource : Piece.ofText source = before ++ .tag (p.around kind e) :: after)
    (hchanged : changed = (before ++ .tag (q.around kind e) :: after).flatMap Piece.text)
    (hback : p.back ≠ [] → q.back ≠ [])
    (hminify : c.options.wantsMinify (Text.trim source) = false) :
    c.options.wantsMinify (Text.trim changed) = false ∧
      (c.compile changed).result = (c.compile source).result.mapError
        (CompileError.relocate (Segment.movedBehind
          (Text.escape (Text.trimLeft (before.flatMap Piece.text))).length
          (q.length - p.length))) := by
  have hcut := Piece.isCut_ofText source
  rw [hsource, Piece.isCut_append_tag_iff] at hcut
  obtain ⟨hbefore, hinner, hafter⟩ := hcut
  -- The tag stays enclosed, so the changed template is cut at the same places.
  have hnext : Piece.ofText changed = before ++ .tag (q.around kind e) :: after := by
    rw [Piece.ofText_eq_iff]
    exact ⟨hchanged.symm, (Piece.isCut_append_tag_iff before).2
      ⟨hbefore, Padding.isEnclosed_around hback hinner, hafter⟩⟩
  have htrim (p : Padding) {s : Text}
      (h : Piece.ofText s = before ++ .tag (p.around kind e) :: after) :
      Text.trim s = Text.trimLeft (before.flatMap Piece.text) ++
        ((Piece.tag (p.around kind e)).text ++ Text.trimRight (after.flatMap Piece.text)) := by
    rw [← Piece.trim_append_tag, ← Piece.flatMap_text_ofText s, h, List.flatMap_append,
      List.flatMap_cons]
  -- Minification is decided by the number of lines, which the blanks do not change.
  have hlines : Text.lineCount (Text.trim changed) = Text.lineCount (Text.trim source) := by
    have hp := p.lineCount_around kind e (Text.trimLeft (before.flatMap Piece.text))
      (Text.trimRight (after.flatMap Piece.text))
    have hq := q.lineCount_around kind e (Text.trimLeft (before.flatMap Piece.text))
      (Text.trimRight (after.flatMap Piece.text))
    rw [← htrim p hsource] at hp
    rw [← htrim q hnext] at hq
    omega
  have hwants : c.options.wantsMinify (Text.trim changed) = false := by
    rw [wantsMinify_eq_of_lineCount hlines, hminify]
  refine ⟨hwants, result_compile_of_emission hminify hwants ?_⟩
  have hread : Directive.ofInner (q.around kind (Text.escape e)) =
      Directive.ofInner (p.around kind (Text.escape e)) := by
    rw [Padding.ofInner_around, Padding.ofInner_around]
  have hlength : ((q.around kind (Text.escape e)).length : Int) -
      (p.around kind (Text.escape e)).length = q.length - p.length := by
    rw [Padding.length_around, Padding.length_around]
    omega
  rw [emission, emission, Piece.ofSource_of_ofText_eq hnext, Piece.ofSource_of_ofText_eq hsource,
    Padding.escape_around, Padding.escape_around, ← hlength,
    ← Piece.flatMap_text_map_escaped_trimFront
      ((Piece.isCut_append_tag_iff before).2 ⟨hbefore, hinner, hafter⟩)]
  exact Stage.emitSegments_relocate _ (Segment.forall₂_moved_tag hread) {}

/-- Two blanks more in a tag move the error of the tag behind it by two places. -/
theorem result_compile_around_each :
    Piece.ofText "\x7b\x7b#each a\x7d\x7d\x7b\x7b/hide\x7d\x7d".toList =
        [.tag "#each a".toList, .tag "/hide".toList] ∧
      (({ settings := { strictScopes := true }, minifier := .keep } : Compiler).compile
        "\x7b\x7b #each  a\x7d\x7d\x7b\x7b/hide\x7d\x7d".toList).result =
          Except.error (.unbalanced ⟨.unmatched .hide, some 13⟩) := by
  have hpieces : Piece.ofText (Piece.opening ++ "#each a".toList ++ Piece.closing
      ++ (Piece.opening ++ "/hide".toList ++ Piece.closing ++ [])) =
        [.tag "#each a".toList, .tag "/hide".toList] := by
    rw [Piece.ofText_tag (by decide), Piece.ofText_tag (by decide), Piece.ofText]
  refine ⟨hpieces, ?_⟩
  let c : Compiler := { settings := { strictScopes := true }, minifier := .keep }
  let p : Padding := ⟨[], " ".toList, [], by simp, by decide, by simp⟩
  let q : Padding := ⟨" ".toList, "  ".toList, [], by decide, by decide, by simp⟩
  have hsource : Piece.ofText "\x7b\x7b#each a\x7d\x7d\x7b\x7b/hide\x7d\x7d".toList =
      [] ++ .tag (p.around .each "a".toList) :: [.tag "/hide".toList] := hpieces
  have hchanged : "\x7b\x7b #each  a\x7d\x7d\x7b\x7b/hide\x7d\x7d".toList =
      ([] ++ Piece.tag (q.around .each "a".toList) :: [.tag "/hide".toList]).flatMap
        Piece.text := rfl
  have hminify : c.options.wantsMinify (Text.trim
      "\x7b\x7b#each a\x7d\x7d\x7b\x7b/hide\x7d\x7d".toList) = false := rfl
  have hresult := (result_compile_around hsource hchanged id hminify).2
  refine hresult.trans ?_
  rw [result_compile hminify, emission, Piece.ofSource_of_ofText_eq hsource]
  rfl

/-- A line break in a tag is a part of its expression, and blanks in a tag are counted in the places
behind it. -/
theorem result_compile_line_break :
    (({ minifier := .keep } : Compiler).compile "\x7b\x7b a\x7d\x7d".toList).result =
        .ok "function(m0)\x7breturn ''+m0.a+'';\x7d".toList ∧
      (({ minifier := .keep } : Compiler).compile "\x7b\x7b\na\x7d\x7d".toList).result =
        .ok "function(m0)\x7breturn ''+m0.\\na+'';\x7d".toList ∧
      (({ settings := { strictScopes := true }, minifier := .keep } : Compiler).compile
        "\x7b\x7ba\x7d\x7d\x7b\x7b/each\x7d\x7d".toList).result =
          Except.error (.unbalanced ⟨.unmatched .each, some 5⟩) ∧
      (({ settings := { strictScopes := true }, minifier := .keep } : Compiler).compile
        "\x7b\x7b  a\x7d\x7d\x7b\x7b/each\x7d\x7d".toList).result =
          Except.error (.unbalanced ⟨.unmatched .each, some 7⟩) := by
  have hone (inner : Text) (h : '}' ∉ inner) :
      Piece.ofText (Piece.opening ++ inner ++ Piece.closing ++ []) = [] ++ [.tag inner] := by
    rw [Piece.ofText_tag h, Piece.ofText]
    rfl
  have htwo (inner : Text) (h : '}' ∉ inner) :
      Piece.ofText (Piece.opening ++ inner ++ Piece.closing ++
        (Piece.opening ++ "/each".toList ++ Piece.closing ++ [])) =
          [] ++ [.tag inner, .tag "/each".toList] := by
    rw [Piece.ofText_tag h, hone _ (by decide)]
    rfl
  have hblank : Piece.ofText "\x7b\x7b a\x7d\x7d".toList = _ := hone " a".toList (by decide)
  have hbreak : Piece.ofText "\x7b\x7b\na\x7d\x7d".toList = _ := hone "\na".toList (by decide)
  have hnear : Piece.ofText "\x7b\x7ba\x7d\x7d\x7b\x7b/each\x7d\x7d".toList = _ :=
    htwo "a".toList (by decide)
  have hfar : Piece.ofText "\x7b\x7b  a\x7d\x7d\x7b\x7b/each\x7d\x7d".toList = _ :=
    htwo "  a".toList (by decide)
  refine ⟨?_, ?_, ?_, ?_⟩
  · rw [result_compile rfl, emission, Piece.ofSource_of_ofText_eq hblank]
    rfl
  · rw [result_compile rfl, emission, Piece.ofSource_of_ofText_eq hbreak]
    rfl
  · rw [result_compile rfl, emission, Piece.ofSource_of_ofText_eq hnear]
    rfl
  · rw [result_compile rfl, emission, Piece.ofSource_of_ofText_eq hfar]
    rfl

end Compiler

end Stencil
