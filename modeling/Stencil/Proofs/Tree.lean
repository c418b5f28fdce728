import Stencil.Proofs.Reading

/-!
# Templates as trees

A template that is written as a tree of nodes is compiled to the code that a recursion over the
tree gives. The compiler sees no tree: it scans escaped text and emits the opening and the closing
of a block apart, with a tracker for the depth. Printing a tree and cutting the text gives the tags
and literals of the tree in order, the tags of its blocks are well nested, and a tree leaves the
depth as it was, so the fragments fall back into place.

A `Tree` is a list of siblings, and what follows a node is its last argument.
-/

namespace Stencil

/-! ### Trees -/

def Text.IsPlain (c : Char) : Prop := IsOrdinary c ∧ c ≠ '\x27' ∧ ¬IsBrace c

instance (c : Char) : Decidable (Text.IsPlain c) := inferInstanceAs (Decidable (_ ∧ _ ∧ _))

structure Literal where
  text : Text
  ne_nil : text ≠ []
  no_brace : '{' ∉ text

/-- The expression of a tag, which may be any text without line breaks, quotes, braces and blanks
around it. -/
structure Expression where
  text : Text
  ne_nil : text ≠ []
  plain : ∀ c ∈ text, Text.IsPlain c
  trimmed : Text.trim text = text

/-- An expression that does not begin with a keyword, the mark of a partial call among them. -/
structure BareExpression extends Expression where
  no_keyword : ∀ kind, kind ≠ .interpolation → ¬Kind.keyword kind <+: text

/-- A tag that encloses nothing. -/
inductive Leaf where
  | interpolation (e : BareExpression)
  | key
  | selectedIf (e : Expression)
  | checkedIf (e : Expression)
  | partialCall (name : Expression)

/-- A template as siblings in order. -/
inductive Tree where
  | nil
  | literal (t : Literal) (next : Tree)
  | leaf (l : Leaf) (next : Tree)
  | block (b : Block) (e : Expression) (body next : Tree)

def Block.openKind : Block → Kind
  | each => .each
  | hide => .hide

def Block.closeKind : Block → Kind
  | each => .eachEnd
  | hide => .hideEnd

def braced (inner : Text) : Text := "\x7b\x7b".toList ++ inner ++ "\x7d\x7d".toList

def Kind.inner (kind : Kind) (e : Expression) : Text := kind.keyword ++ ' ' :: e.text

def Leaf.inner : Leaf → Text
  | interpolation e => e.text
  | key => Kind.key.keyword
  | selectedIf e => Kind.selectedIf.inner e
  | checkedIf e => Kind.checkedIf.inner e
  | partialCall name => Kind.partialCall.inner name

def Leaf.generate (s : Settings) (depth : Nat) : Leaf → Text
  | interpolation e => "'+".toList ++ s.reference depth e.text ++ "+'".toList
  | key => "'+".toList ++ s.key depth ++ "+'".toList
  | selectedIf e =>
    "'+((".toList ++ s.reference depth e.text ++ "==".toList
      ++ s.reference depth "value".toList ++ ")?'selected':'')+'".toList
  | checkedIf e =>
    "'+((".toList ++ s.reference depth e.text ++ "==".toList
      ++ s.reference depth "value".toList ++ ")?'checked':'')+'".toList
  | partialCall name =>
    "'+".toList ++ s.partialName ++ '.' :: name.text ++ '(' :: s.model depth ++ ")+'".toList

def Block.depthInside (depth : Nat) : Block → Nat
  | each => depth + 1
  | hide => depth

/-- The code of a block around the code of its body. -/
def Block.generate (s : Settings) (depth : Nat) (e body : Text) : Block → Text
  | each =>
    "'+".toList ++ s.mapMethod ++ '(' :: s.reference depth e ++ ", function(".toList
      ++ s.model (depth + 1) ++ ',' :: s.key (depth + 1) ++ ") \x7b return '".toList ++ body
      ++ "';\x7d).join('')+'".toList
  | hide => "'+(!(".toList ++ s.reference depth e ++ ")?('".toList ++ body ++ "'):(''))+'".toList

namespace Tree

def print : Tree → Text
  | nil => []
  | literal t next => t.text ++ next.print
  | leaf l next => braced l.inner ++ next.print
  | block b e body next =>
    braced (b.openKind.inner e) ++ body.print ++ braced b.closeKind.keyword ++ next.print

/-- The code of a template, by recursion over its nodes. -/
def generate (s : Settings) (depth : Nat) : Tree → Text
  | nil => []
  | literal t next => Text.escape t.text ++ next.generate s depth
  | leaf l next => l.generate s depth ++ next.generate s depth
  | block b e body next =>
    b.generate s depth e.text (body.generate s (b.depthInside depth)) ++ next.generate s depth

def StartsLiteral : Tree → Prop
  | literal _ _ => True
  | _ => False

/-- No two literals are siblings without another node between them. -/
def Separated : Tree → Prop
  | nil => True
  | literal _ next => ¬next.StartsLiteral ∧ next.Separated
  | leaf _ next => next.Separated
  | block _ _ body next => body.Separated ∧ next.Separated

def pieces : Tree → List Piece
  | nil => []
  | literal t next => .literal t.text :: next.pieces
  | leaf l next => .tag l.inner :: next.pieces
  | block b e body next =>
    .tag (b.openKind.inner e) :: (body.pieces ++ .tag b.closeKind.keyword :: next.pieces)

end Tree

/-! ### Reading tags back -/

namespace Directive

theorem ofInner_inner (kind : Kind) (h : kind ≠ .interpolation) (e : Expression) :
    ofInner (kind.inner e) = ⟨kind, e.text⟩ := by
  rw [Kind.inner, ofInner_keyword kind h, Text.trim_blank e.trimmed]

theorem ofInner_bare (e : BareExpression) : ofInner e.text = ⟨.interpolation, e.text⟩ := by
  rw [ofInner, Text.trimLeft_eq_self_of_trim e.trimmed,
    Kind.dropKeyword_of_no_keyword e.no_keyword]
  change (⟨.interpolation, Text.trim e.text⟩ : Directive) = _
  rw [e.trimmed]

end Directive

/-! ### The pieces of a tree -/

theorem Kind.plain_keyword (kind : Kind) : ∀ c ∈ kind.keyword, Text.IsPlain c := by
  cases kind <;> decide

theorem Kind.plain_inner (kind : Kind) (e : Expression) : ∀ c ∈ kind.inner e, Text.IsPlain c := by
  intro c hc
  rw [inner, List.mem_append, List.mem_cons] at hc
  rcases hc with hkeyword | rfl | he
  · exact kind.plain_keyword c hkeyword
  · decide
  · exact e.plain c he

theorem Leaf.plain_inner (l : Leaf) : ∀ c ∈ l.inner, Text.IsPlain c := by
  cases l with
  | interpolation e => exact e.plain
  | key => exact Kind.key.plain_keyword
  | selectedIf e => exact Kind.selectedIf.plain_inner e
  | checkedIf e => exact Kind.checkedIf.plain_inner e
  | partialCall name => exact Kind.partialCall.plain_inner name

namespace Piece

private theorem ofText_braced {inner : Text} (h : ∀ c ∈ inner, Text.IsPlain c) (r : Text) :
    ofText (braced inner ++ r) = tag inner :: ofText r :=
  ofText_tag (fun hmem => (h '}' hmem).2.2 (.inr rfl)) r

theorem escaped_tag {inner : Text} (h : ∀ c ∈ inner, Text.IsPlain c) :
    escaped (tag inner) = tag inner := by
  rw [escaped, Text.escape_eq_self fun c hc => ⟨(h c hc).1, (h c hc).2.1⟩]

def StartsTag (ps : List Piece) : Prop := ∀ t, ps.head? ≠ some (literal t)

private theorem front_eq_nil {ps : List Piece} (h : StartsTag ps) : front ps = [] := by
  match ps with
  | [] | tag _ :: _ => rfl
  | literal t :: _ => exact absurd rfl (h t)

private theorem behind_eq_self {ps : List Piece} (h : StartsTag ps) : behind ps = ps := by
  match ps with
  | [] | tag _ :: _ => rfl
  | literal t :: _ => exact absurd rfl (h t)

end Piece

namespace Tree

open Piece

private theorem startsTag_pieces_append {t : Tree} (ht : ¬t.StartsLiteral) {ps : List Piece}
    (hps : StartsTag ps) : StartsTag (t.pieces ++ ps) := by
  cases t with
  | nil => exact hps
  | literal _ _ => exact absurd trivial ht
  | leaf _ _ | block _ _ _ _ => simp [pieces, StartsTag]

/-- Cutting a written template gives the literals and tags of the tree. -/
theorem ofText_print_append {t : Tree} (ht : t.Separated) {rest : Text}
    (hrest : StartsTag (ofText rest)) : ofText (t.print ++ rest) = t.pieces ++ ofText rest := by
  induction t generalizing rest with
  | nil => rfl
  | literal t next ih =>
      -- A tag follows, or the end, so nothing continues the literal.
      obtain ⟨hstart, hnext⟩ := ht
      have htag := startsTag_pieces_append hstart hrest
      rw [print, List.append_assoc, ofText_append t.ne_nil t.no_brace, ih hnext hrest,
        front_eq_nil htag, behind_eq_self htag, List.append_nil]
      rfl
  | leaf l next ih =>
      rw [print, List.append_assoc, ofText_braced l.plain_inner, ih ht hrest]
      rfl
  | block b e body next ihbody ihnext =>
      obtain ⟨hbody, hnext⟩ := ht
      have hclose : ofText (braced b.closeKind.keyword ++ (next.print ++ rest))
          = tag b.closeKind.keyword :: (next.pieces ++ ofText rest) := by
        rw [ofText_braced b.closeKind.plain_keyword, ihnext hnext hrest]
      have htag : StartsTag (ofText (braced b.closeKind.keyword ++ (next.print ++ rest))) := by
        simp [hclose, StartsTag]
      simp only [print, List.append_assoc]
      rw [ofText_braced (Kind.plain_inner _ e), ihbody hbody htag, hclose]
      simp [pieces]

theorem ofSource_print {t : Tree} (ht : t.Separated) (htrim : Text.trim t.print = t.print) :
    ofSource t.print = t.pieces.map escaped := by
  have hnil : StartsTag (ofText []) := by simp [ofText, StartsTag]
  have hpieces := ofText_print_append ht hnil
  rw [ofSource, htrim, ofText_escape]
  simpa [ofText] using congrArg (List.map escaped) hpieces

/-! ### The code of a tree -/

private theorem ofInner_openKind (b : Block) (e : Expression) :
    Directive.ofInner (b.openKind.inner e) = ⟨b.openKind, e.text⟩ :=
  Directive.ofInner_inner _ (by cases b <;> decide) e

theorem ofInner_closeKind (b : Block) :
    Directive.ofInner b.closeKind.keyword = ⟨b.closeKind, []⟩ := by
  have h := Directive.ofInner_keyword b.closeKind (by cases b <;> decide) []
  rwa [List.append_nil] at h

theorem mark?_leaf (l : Leaf) : mark? (tag l.inner) = none := by
  cases l with
  | interpolation e => rw [mark?, Leaf.inner, Directive.ofInner_bare]; rfl
  | key => rfl
  | selectedIf e | checkedIf e | partialCall e =>
      rw [mark?, Leaf.inner, Directive.ofInner_inner _ (by decide)]
      rfl

theorem mark?_openKind (b : Block) (e : Expression) :
    mark? (tag (b.openKind.inner e)) = some (.opens b) := by
  rw [mark?, ofInner_openKind]
  cases b <;> rfl

theorem mark?_closeKind (b : Block) : mark? (tag b.closeKind.keyword) = some (.closes b) := by
  rw [mark?, ofInner_closeKind]
  cases b <;> rfl

theorem map_escaped_pieces_block (b : Block) (e : Expression) (body next : Tree) :
    (block b e body next).pieces.map escaped = tag (b.openKind.inner e)
      :: (body.pieces.map escaped ++ tag b.closeKind.keyword :: next.pieces.map escaped) := by
  rw [pieces, List.map_cons, List.map_append, List.map_cons, escaped_tag (Kind.plain_inner _ e),
    escaped_tag b.closeKind.plain_keyword]

private theorem marks_pieces_block (b : Block) (e : Expression) (body next : Tree) :
    marks ((block b e body next).pieces.map escaped)
      = .opens b :: (marks (body.pieces.map escaped)
        ++ .closes b :: marks (next.pieces.map escaped)) := by
  rw [map_escaped_pieces_block, marks, List.filterMap_cons_some (mark?_openKind b e),
    List.filterMap_append, List.filterMap_cons_some (mark?_closeKind b)]
  rfl

theorem wellNested_marks (t : Tree) : WellNested (marks (t.pieces.map escaped)) := by
  induction t with
  | nil => exact .nil
  | literal t next ih => exact ih
  | leaf l next ih =>
      rw [pieces, List.map_cons, escaped_tag l.plain_inner, marks,
        List.filterMap_cons_none (mark?_leaf l)]
      exact ih
  | block b e body next ihbody ihnext =>
      rw [marks_pieces_block]
      exact .block b ihbody ihnext

theorem code_inner (s : Settings) (depth : Nat) {kind : Kind} (h : kind ≠ .interpolation)
    (e : Expression) :
    Piece.code s depth (tag (kind.inner e)) = Directive.code s depth ⟨kind, e.text⟩ := by
  rw [code, Directive.ofInner_inner kind h]

private theorem code_leaf (s : Settings) (depth : Nat) (l : Leaf) :
    Piece.code s depth (tag l.inner) = l.generate s depth := by
  cases l with
  | interpolation e => rw [code, Leaf.inner, Directive.ofInner_bare]; rfl
  | key => rfl
  | partialCall name => exact code_inner s depth (by decide) name
  | selectedIf e | checkedIf e =>
      refine (code_inner s depth (by decide) e).trans ?_
      change _ ++ _ = _ ++ _
      simp only [List.append_assoc]
      rfl

private theorem code_openKind (s : Settings) (depth : Nat) (b : Block) (e : Expression) :
    Piece.code s depth (tag (b.openKind.inner e)) = Directive.code s depth ⟨b.openKind, e.text⟩ :=
  code_inner s depth (by cases b <;> decide) e

private theorem code_closeKind (s : Settings) (depth : Nat) (b : Block) :
    Piece.code s depth (tag b.closeKind.keyword) = Directive.code s depth ⟨b.closeKind, []⟩ := by
  rw [code, ofInner_closeKind]

private theorem generate_block (s : Settings) (depth inside : Nat) (b : Block) (e body : Text) :
    b.generate s depth e body = Directive.code s depth ⟨b.openKind, e⟩ ++ body
      ++ Directive.code s inside ⟨b.closeKind, []⟩ := by
  cases b <;> rfl

/-- The code of the pieces of a tree, one after another, is the code of the tree. -/
theorem flatten_codeAll_pieces (s : Settings) (depth : Nat) (t : Tree) :
    (codeAll s depth (t.pieces.map escaped)).flatten = t.generate s depth := by
  induction t generalizing depth with
  | nil => rfl
  | literal t next ih =>
      rw [pieces, List.map_cons, codeAll, List.flatten_cons]
      exact congrArg _ (ih depth)
  | leaf l next ih =>
      have hdepth : depthAfter depth (tag l.inner) = depth := by
        rw [depthAfter, marks, List.filterMap_cons_none (mark?_leaf l)]
        rfl
      rw [pieces, List.map_cons, escaped_tag l.plain_inner, codeAll, List.flatten_cons, hdepth, ih,
        code_leaf]
      rfl
  | block b e body next ihbody ihnext =>
      have hopen : ∀ d, depthAfter d (tag (b.openKind.inner e)) = Mark.depthAfter d (.opens b) := by
        intro d
        rw [depthAfter, marks, List.filterMap_cons_some (mark?_openKind b e)]
        rfl
      have hclose :
          ∀ d, depthAfter d (tag b.closeKind.keyword) = Mark.depthAfter d (.closes b) := by
        intro d
        rw [depthAfter, marks, List.filterMap_cons_some (mark?_closeKind b)]
        rfl
      rw [map_escaped_pieces_block, codeAll, codeAll_append, codeAll, hopen,
        (wellNested_marks body).foldl_depthAfter, hclose, Mark.depthAfter_closes_opens,
        List.flatten_cons, List.flatten_append, List.flatten_cons, ihbody, ihnext, code_openKind,
        code_closeKind]
      rw [generate, generate_block s depth (Mark.depthAfter depth (.opens b)), List.append_assoc,
        List.append_assoc]
      cases b <;> rfl
end Tree

/-! ### Compilation of a written tree -/

/-- A template that is written as a tree is compiled to the code of the tree. -/
theorem Compiler.result_compile_print (c : Compiler) {t : Tree} (ht : t.Separated)
    (htrim : Text.trim t.print = t.print) (hminify : c.options.wantsMinify t.print = false) :
    (c.compile t.print).result =
      .ok (c.settings.functionOpening ++ t.generate c.settings 0 ++ functionClosing) := by
  have hpieces := Tree.ofSource_print ht htrim
  have hnested : WellNested (Piece.marks (Piece.ofSource t.print)) := by
    rw [hpieces]
    exact t.wellNested_marks
  rw [← htrim] at hminify
  rw [result_compile_of_wellNested hminify hnested, hpieces, Fragments.code,
    t.flatten_codeAll_pieces]
  rfl

/-- Rows of a table, each with a quote, a line break and a part that may be hidden. -/
def Tree.rows : Tree :=
  .block .each ⟨"../items".toList, by decide, by decide, by decide⟩
    (.literal ⟨"it's\n".toList, by decide, by decide⟩
      (.block .hide ⟨"gone".toList, by decide, by decide, by decide⟩
        (.leaf (.partialCall ⟨"row".toList, by decide, by decide, by decide⟩)
          (.leaf (.interpolation
            ⟨⟨"name".toList, by decide, by decide, by decide⟩, by
              intro kind
              cases kind <;> decide⟩) .nil))
        (.leaf .key .nil)))
    (.leaf (.selectedIf ⟨"this".toList, by decide, by decide, by decide⟩) .nil)

theorem Compiler.result_compile_print_rows :
    Tree.rows.print = "\x7b\x7b#each ../items\x7d\x7dit's\n\x7b\x7b#hide gone\x7d\x7d".toList
        ++ "\x7b\x7b> row\x7d\x7d\x7b\x7bname\x7d\x7d\x7b\x7b/hide\x7d\x7d".toList
        ++ "\x7b\x7b@key\x7d\x7d\x7b\x7b/each\x7d\x7d\x7b\x7b@selectedIf this\x7d\x7d".toList ∧
      (({ minifier := .keep } : Compiler).compile Tree.rows.print).result =
        .ok ("function(m0)\x7breturn ''+_.map(m0.items, function(m1,k1) \x7b return ".toList
          ++ "'it\\'s\\n'+(!(m1.gone)?(''+p.row(m1)+''+m1.name+''):(''))+''+k1+''".toList
          ++ ";\x7d).join('')+''+((m0==m0.value)?'selected':'')+'';\x7d".toList) := by
  have hseparated : Tree.rows.Separated := by
    simp [Tree.rows, Tree.Separated, Tree.StartsLiteral]
  refine ⟨by decide +kernel, ?_⟩
  rw [result_compile_print { minifier := .keep } hseparated (by decide +kernel)
    (by decide +kernel)]
  exact congrArg Except.ok (by decide +kernel)

end Stencil
