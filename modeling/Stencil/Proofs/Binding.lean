import Stencil.Proofs.Completion
import Stencil.Proofs.Digits

/-!
# What the names of models refer to

Generated code nests one function in another, and a name refers to a parameter of the innermost
function around it that has a parameter of this name. Here a name is looked up in the parameters
as the code spells them, and the functions around a place are the root and those whose each blocks
are open there by the grammar of blocks. Nothing of this counts a depth.

A compilation names models by the depth that its tracker counts. The two agree: the names of
different depths are different and no key is named like a model, so the name of a depth is the
model parameter of the function at this depth, and a hide block between them makes no difference.
-/

namespace Stencil

namespace Binding

/-! ### Names in nested functions -/

/-- The parameters of a function whose heading ends the code. -/
def parameters (code : Text) : List Text :=
  ((code.reverse.takeWhile (· ≠ '(')).reverse.takeWhile (· ≠ ')')).splitOn ','

/-- The function and the parameter that a name refers to. Functions are counted outwards and
parameters from the left; of several parameters of one function with this name, the last counts. -/
def find? (name : Text) : List (List Text) → Option (Nat × Nat)
  | [] => none
  | names :: outer =>
    match names.reverse.idxOf? name with
    | some place => some (0, names.length - 1 - place)
    | none => (find? name outer).map fun found => (found.1 + 1, found.2)

/-- The functions around a place, innermost first, by their parameters. The code before the place
is given piece by piece. -/
inductive FunctionsAround (opening : Text) : List (Piece × Text) → List (List Text) → Prop where
  | root {inner : List (Piece × Text)} (hinner : WellNested (Piece.marks (inner.map Prod.fst))) :
      FunctionsAround opening inner [parameters opening]
  | each {outer inner : List (Piece × Text)} {functions : List (List Text)} {tag code : Text}
      (houter : FunctionsAround opening outer functions)
      (hkind : (Directive.ofInner tag).kind = .each)
      (hinner : WellNested (Piece.marks (inner.map Prod.fst))) :
      FunctionsAround opening (outer ++ (.tag tag, code) :: inner) (parameters code :: functions)
  | hide {outer inner : List (Piece × Text)} {functions : List (List Text)} {tag code : Text}
      (houter : FunctionsAround opening outer functions)
      (hkind : (Directive.ofInner tag).kind = .hide)
      (hinner : WellNested (Piece.marks (inner.map Prod.fst))) :
      FunctionsAround opening (outer ++ (.tag tag, code) :: inner) functions

def readPath (model path : Text) : Text :=
  if path = "this".toList then model else model ++ '.' :: path

/-- A text that can stand as a parameter: what ends a parameter is not in it. -/
def IsParameter (name : Text) : Prop := '(' ∉ name ∧ ')' ∉ name ∧ ',' ∉ name

private theorem parameters_pair {first second after : Text} (hfirst : IsParameter first)
    (hsecond : IsParameter second) (hafter : '(' ∉ after) (before : Text) :
    parameters (before ++ '(' :: (first ++ ',' :: second ++ ')' :: after)) = [first, second] := by
  have hopen : ∀ c ∈ (first ++ ',' :: second ++ ')' :: after).reverse,
      decide (c ≠ '(') = true := by
    intro c hc
    refine decide_eq_true fun he => ?_
    simp [he, hfirst.1, hsecond.1, hafter] at hc
  have hclose : ∀ c ∈ first ++ ',' :: second, decide (c ≠ ')') = true := by
    intro c hc
    refine decide_eq_true fun he => ?_
    simp [he, hfirst.2.1, hsecond.2.1] at hc
  have hlist : first ++ ',' :: second = [','].intercalate [first, second] := by
    simp [List.intercalate]
  have hcommas : ∀ name ∈ [first, second], ',' ∉ name := by
    simp [hfirst.2.2, hsecond.2.2]
  rw [parameters, List.reverse_append, List.reverse_cons, List.append_assoc, List.singleton_append,
    List.takeWhile_append_of_pos hopen, List.takeWhile_cons_of_neg (by decide), List.append_nil,
    List.reverse_reverse, List.takeWhile_append_of_pos hclose,
    List.takeWhile_cons_of_neg (by decide), List.append_nil, hlist,
    List.splitOn_intercalate ',' hcommas (by simp)]

theorem find?_cons_of_not_mem {name : Text} {names : List Text} (h : name ∉ names)
    (outer : List (List Text)) :
    find? name (names :: outer) = (find? name outer).map fun found => (found.1 + 1, found.2) := by
  rw [find?, List.idxOf?_eq_none_iff.2 (by simpa using h)]

end Binding

open Binding

/-! ### The names of models -/

namespace Settings

variable {s : Settings}

def functionsAt (s : Settings) : Nat → List (List Text)
  | 0 => [[s.model 0]]
  | depth + 1 => [s.model (depth + 1), s.key (depth + 1)] :: functionsAt s depth

theorem length_functionsAt (depth : Nat) : (s.functionsAt depth).length = depth + 1 := by
  induction depth with
  | zero => rfl
  | succ depth ih => rw [functionsAt, List.length_cons, ih]

theorem model_injective (s : Settings) : Function.Injective s.model := by
  intro i j h
  exact Text.ofNat_injective (List.append_cancel_left h)

theorem model_ne_key (i j : Nat) : ({} : Settings).model i ≠ ({} : Settings).key j := by
  intro h
  have hhead : some 'm' = some 'k' := congrArg List.head? h
  cases hhead

theorem find?_model (hkey : ∀ i j, s.model i ≠ s.key j) {i depth : Nat} (h : i ≤ depth) :
    find? (s.model i) (s.functionsAt depth) = some (depth - i, 0) := by
  induction depth with
  | zero =>
      obtain rfl : i = 0 := Nat.le_zero.1 h
      simp [functionsAt, find?, List.idxOf?_cons]
  | succ depth ih =>
      rw [functionsAt]
      by_cases hi : i = depth + 1
      · subst hi
        have hne : s.key (depth + 1) ≠ s.model (depth + 1) := (hkey _ _).symm
        simp [find?, List.idxOf?_cons, hne]
      · have hmodel : s.model i ≠ s.model (depth + 1) := fun he => hi (s.model_injective he)
        have hle : i ≤ depth := by omega
        rw [find?_cons_of_not_mem (by simp [hmodel, hkey]), ih hle, Option.map_some,
          Nat.sub_add_comm hle]

private theorem parameters_functionOpening :
    parameters ({} : Settings).functionOpening = [({} : Settings).model 0] := rfl

private theorem isParameter_identifier {stem : Text} (h : IsParameter stem) (depth : Nat) :
    IsParameter (identifier stem depth) := by
  have hother {c : Char} (hstem : c ∉ stem) (hdigit : c.isDigit = false) :
      c ∉ identifier stem depth := by
    intro hmem
    rcases of_mem_identifier hmem with hc | hc
    · exact hstem hc
    · rw [hc] at hdigit
      cases hdigit
  exact ⟨hother h.1 rfl, hother h.2.1 rfl, hother h.2.2 rfl⟩

end Settings

/-! ### The code of directives -/

/-- The code that writes a word if what was read equals the value of a model. -/
def comparison (read model : Text) (word : String) : Text :=
  "'+((".toList ++ read ++ "==".toList ++ model ++ ".value)?'".toList ++ word.toList
    ++ "':'')+'".toList

theorem Settings.attributeIf_eq (s : Settings) (depth : Nat) (e : Text) (word : String) :
    s.attributeIf depth e word = comparison (s.reference depth e) (s.model depth) word := by
  have hvalue : s.reference depth "value".toList = s.model depth ++ ".value".toList := by
    simp [reference, member, splitParents]
  delta attributeIf comparison
  rw [hvalue]
  simp

namespace Directive

/-- Where a directive uses a model, its code has the name `target` for the model that its expression
is read in, and `current` for the one that is compared or handed on. -/
def NamesModels (s : Settings) (target current : Text) (d : Directive) (code : Text) : Prop :=
  match d.kind with
  | .each => ∃ rest, code =
      "'+".toList ++ s.mapMethod ++ '(' :: readPath target (splitParents d.expression).2
        ++ ", function(".toList ++ rest
  | .hide => code =
      "'+(!(".toList ++ readPath target (splitParents d.expression).2 ++ ")?('".toList
  | .selectedIf =>
      code = comparison (readPath target (splitParents d.expression).2) current "selected"
  | .checkedIf =>
      code = comparison (readPath target (splitParents d.expression).2) current "checked"
  | .partialCall => code =
      "'+".toList ++ s.partialName ++ '.' :: d.expression ++ '(' :: current ++ ")+'".toList
  | .interpolation => code =
      "'+".toList ++ readPath target (splitParents d.expression).2 ++ "+'".toList
  | .eachEnd | .hideEnd | .key => True

theorem namesModels_code (s : Settings) (depth : Nat) (d : Directive) :
    d.NamesModels s (s.model (depth - (splitParents d.expression).1)) (s.model depth)
      (d.code s depth) := by
  obtain ⟨kind, e⟩ := d
  have hread : readPath (s.model (depth - (splitParents e).1)) (splitParents e).2 =
      s.reference depth e := rfl
  cases kind with
  | each =>
      refine ⟨s.model (depth + 1) ++ ',' :: s.key (depth + 1) ++ ") \x7b return '".toList, ?_⟩
      rw [hread, code]
      simp only [List.append_assoc, List.cons_append]
  | selectedIf | checkedIf => exact s.attributeIf_eq depth e _
  | hide | interpolation | partialCall => rfl
  | eachEnd | hideEnd | key => trivial

theorem parameters_code {d : Directive} (hkind : d.kind = .each) (depth : Nat) :
    parameters (d.code {} depth) =
      [({} : Settings).model (depth + 1), ({} : Settings).key (depth + 1)] := by
  have hcode : d.code {} depth =
      "'+_.map(".toList ++ ({} : Settings).reference depth d.expression ++ ", function".toList
        ++ '(' :: (({} : Settings).model (depth + 1) ++ ',' :: ({} : Settings).key (depth + 1)
          ++ ')' :: " \x7b return '".toList) := by
    rw [code, hkind]
    simp
  have hm : IsParameter ({} : Settings).modelName := by simp [IsParameter]
  have hk : IsParameter ({} : Settings).keyName := by simp [IsParameter]
  rw [hcode]
  exact parameters_pair (Settings.isParameter_identifier hm _)
    (Settings.isParameter_identifier hk _) (by simp) _

end Directive

/-! ### Pieces with their code -/

theorem Kind.mark?_eq_opens_each_iff {kind : Kind} :
    kind.mark? = some (.opens .each) ↔ kind = .each := by
  cases kind <;> simp [mark?]

theorem Kind.mark?_eq_opens_hide_iff {kind : Kind} :
    kind.mark? = some (.opens .hide) ↔ kind = .hide := by
  cases kind <;> simp [mark?]

namespace Piece

variable {s : Settings} {depth : Nat} {ps : List Piece}

theorem length_codeAll : (codeAll s depth ps).length = ps.length := by
  induction ps generalizing depth with
  | nil => rfl
  | cons p ps ih => rw [codeAll, List.length_cons, List.length_cons, ih]

theorem of_zip_codeAll_eq_append {before after : List (Piece × Text)} {p : Piece} {code : Text}
    (h : ps.zip (codeAll s depth ps) = before ++ (p, code) :: after) :
    ps = before.map Prod.fst ++ p :: after.map Prod.fst ∧
      before = (before.map Prod.fst).zip (codeAll s depth (before.map Prod.fst)) ∧
      code = p.code s ((marks (before.map Prod.fst)).foldl Mark.depthAfter depth) := by
  obtain ⟨front, rest, codes, others, hlength, rfl, hcodes, rfl, hrest⟩ :=
    List.zip_eq_append_iff.1 h
  obtain ⟨back, last, rfl, rfl, rfl⟩ := List.zip_eq_cons_iff.1 hrest.symm
  rw [codeAll_append] at hcodes
  obtain ⟨rfl, hback⟩ := List.append_inj hcodes (length_codeAll.trans hlength)
  obtain ⟨rfl, rfl⟩ := List.cons.inj hback
  rw [List.map_fst_zip hlength.le, List.map_fst_zip length_codeAll.ge]
  exact ⟨rfl, rfl, rfl⟩

private theorem exists_tag_of_marks_eq {outer inner : List Mark} {m : Mark}
    (h : marks ps = outer ++ m :: inner) : ∃ qs t rs, ps = qs ++ tag t :: rs ∧ marks qs = outer ∧
      (Directive.ofInner t).kind.mark? = some m ∧ marks rs = inner := by
  obtain ⟨qs, rest, rfl, hqs, hrest⟩ := List.filterMap_eq_append_iff.1 h
  obtain ⟨skipped, p, rs, rfl, hnone, hp, hrs⟩ := List.filterMap_eq_cons_iff.1 hrest
  match p with
  | literal _ => cases hp
  | tag t =>
      refine ⟨qs ++ skipped, t, rs, by rw [List.append_assoc], ?_, hp, hrs⟩
      rw [marks_append, marks, marks, hqs, List.filterMap_eq_nil_iff.2 hnone, List.append_nil]

end Piece

namespace Binding

theorem exists_functionsAround (opening : Text) {placed : List (Piece × Text)}
    {blocks : List Block}
    (h : Mark.nestAll [] (Piece.marks (placed.map Prod.fst)) = some blocks) :
    ∃ functions, FunctionsAround opening placed functions := by
  -- The open blocks are split off one at a time, from the innermost outwards.
  induction blocks generalizing placed with
  | nil => exact ⟨_, .root (wellNested_iff_nestAll.2 h)⟩
  | cons b blocks ih =>
      obtain ⟨outer, inner, hmarks, hinner, houter⟩ := exists_opens_of_nestAll h
      obtain ⟨qs, t, rs, hpieces, rfl, hmark, rfl⟩ := Piece.exists_tag_of_marks_eq hmarks
      obtain ⟨before, rest, rfl, rfl, hrest⟩ := List.map_eq_append_iff.1 hpieces
      obtain ⟨⟨piece, code⟩, after, rfl, hpiece, rfl⟩ := List.map_eq_cons_iff.1 hrest
      obtain rfl : piece = .tag t := hpiece
      obtain ⟨functions, hfunctions⟩ := ih houter
      match b with
      | .each => exact ⟨_, hfunctions.each (Kind.mark?_eq_opens_each_iff.1 hmark) hinner⟩
      | .hide => exact ⟨_, hfunctions.hide (Kind.mark?_eq_opens_hide_iff.1 hmark) hinner⟩

/-- The functions around a place in emitted code are those of the depth of the place. -/
theorem FunctionsAround.eq_functionsAt {placed : List (Piece × Text)}
    {functions : List (List Text)}
    (h : FunctionsAround ({} : Settings).functionOpening placed functions)
    (hcode : (placed.map Prod.fst).zip (Piece.codeAll {} 0 (placed.map Prod.fst)) = placed) :
    functions = ({} : Settings).functionsAt
      ((Piece.marks (placed.map Prod.fst)).foldl Mark.depthAfter 0) := by
  -- What is balanced inside a block leaves the depth as it was, so only the tag of the block counts.
  induction h with
  | root hinner => rw [hinner.foldl_depthAfter, Settings.parameters_functionOpening]; rfl
  | @each outer inner functions tag code houter hkind hinner ih =>
      obtain ⟨-, hbefore, rfl⟩ := Piece.of_zip_codeAll_eq_append hcode
      have hmark : Piece.marks [.tag tag] = [.opens .each] := by
        rw [Piece.marks_tag, Kind.mark?_eq_opens_each_iff.2 hkind, Option.toList_some]
      rw [ih hbefore.symm, List.map_append, List.map_cons, Piece.marks_append, Piece.marks_cons,
        hmark, List.foldl_append, List.singleton_append, List.foldl_cons, hinner.foldl_depthAfter,
        Piece.code, Directive.parameters_code hkind]
      rfl
  | @hide outer inner functions tag code houter hkind hinner ih =>
      obtain ⟨-, hbefore, rfl⟩ := Piece.of_zip_codeAll_eq_append hcode
      have hmark : Piece.marks [.tag tag] = [.opens .hide] := by
        rw [Piece.marks_tag, Kind.mark?_eq_opens_hide_iff.2 hkind, Option.toList_some]
      rw [ih hbefore.symm, List.map_append, List.map_cons, Piece.marks_append, Piece.marks_cons,
        hmark, List.foldl_append, List.singleton_append, List.foldl_cons, hinner.foldl_depthAfter]
      rfl

end Binding

namespace Compiler

/-- The name by which a directive reads a model refers to the model parameter of the function that
its parent markers lead to, the innermost without markers and the root if there are too many. The
text is what is compiled: the trimmed template, minified if the options ask for it. -/
theorem scoping_compile {options : Options} {minifier : Minifier} {source text : Text}
    (hminified : ({ options, minifier } : Compiler).minified (Text.trim source) = .ok text)
    (hnested : WellNested (Piece.marks (Piece.ofText (Text.escape text)))) :
    ∃ codes : List Text,
      (Stage.emitSegments {} (Segment.scan (Text.escape text)) {}).result = .ok codes ∧
      (({ options, minifier } : Compiler).compile source).result =
        .ok (({} : Settings).functionOpening ++ codes.flatten ++ functionClosing) ∧
      codes.length = (Piece.ofText (Text.escape text)).length ∧
      ∀ before inner code after,
        (Piece.ofText (Text.escape text)).zip codes = before ++ (.tag inner, code) :: after →
          ∃ functions,
            (∀ other, FunctionsAround ({} : Settings).functionOpening before other ↔
              other = functions) ∧
            ∃ target current, (Directive.ofInner inner).NamesModels {} target current code ∧
              find? target functions =
                some (min (splitParents (Directive.ofInner inner).expression).1
                  (functions.length - 1), 0) ∧
              find? current functions = some (0, 0) := by
  have hemitted : (Stage.emitSegments {} (Segment.scan (Text.escape text)) {}).result =
      .ok (Piece.codeAll {} 0 (Piece.ofText (Text.escape text))) :=
    (Stage.emitSegments_yields hnested).result_eq
  refine ⟨_, hemitted, result_compile_of_emitted hminified hemitted, Piece.length_codeAll, ?_⟩
  intro before inner code after hplace
  obtain ⟨hpieces, hbefore, rfl⟩ := Piece.of_zip_codeAll_eq_append hplace
  have hblocks := hnested.nestAll_eq []
  rw [hpieces, Piece.nestAll_marks_append] at hblocks
  obtain ⟨blocks, hblocks, -⟩ := hblocks
  obtain ⟨functions, hfunctions⟩ :=
    exists_functionsAround ({} : Settings).functionOpening hblocks
  -- Functions around the place are those of its depth, so there is one list of them.
  have hunique {other : List (List Text)}
      (hother : FunctionsAround ({} : Settings).functionOpening before other) :
      other = functions :=
    (hother.eq_functionsAt hbefore.symm).trans (hfunctions.eq_functionsAt hbefore.symm).symm
  refine ⟨functions, fun other => ⟨hunique, fun he => he ▸ hfunctions⟩, _, _,
    Directive.namesModels_code _ _ _, ?_, ?_⟩
  · have hcount (n depth : Nat) : depth - (depth - n) = min n (depth + 1 - 1) := by omega
    rw [hfunctions.eq_functionsAt hbefore.symm, Settings.length_functionsAt,
      Settings.find?_model Settings.model_ne_key (Nat.sub_le _ _), hcount]
  · rw [hfunctions.eq_functionsAt hbefore.symm,
      Settings.find?_model Settings.model_ne_key le_rfl, Nat.sub_self]

/-- A hide block stands between the reference and the each block that it leaves. -/
theorem scoping_compile_hide_between :
    ∃ (each hide target : Text) (rest : List Text),
      (({ minifier := .keep } : Compiler).compile
        "\x7b\x7b#each a\x7d\x7d\x7b\x7b#hide b\x7d\x7d\x7b\x7b../x\x7d\x7d\x7b\x7b/hide\x7d\x7d\x7b\x7b/each\x7d\x7d".toList).result
        = .ok (({} : Settings).functionOpening
            ++ List.flatten (each :: hide :: ("'+".toList ++ target ++ ".x+'".toList) :: rest)
            ++ functionClosing) ∧
      FunctionsAround ({} : Settings).functionOpening
        [(.tag "#each a".toList, each), (.tag "#hide b".toList, hide)]
        [["m1".toList, "k1".toList], ["m0".toList]] ∧
      find? target [["m1".toList, "k1".toList], ["m0".toList]] = some (1, 0) := by
  have hpieces : Piece.ofText (Text.escape
      "\x7b\x7b#each a\x7d\x7d\x7b\x7b#hide b\x7d\x7d\x7b\x7b../x\x7d\x7d\x7b\x7b/hide\x7d\x7d\x7b\x7b/each\x7d\x7d".toList)
      = [.tag "#each a".toList, .tag "#hide b".toList, .tag "../x".toList, .tag "/hide".toList,
          .tag "/each".toList] := by
    change Piece.ofText (Piece.opening ++ "#each a".toList ++ Piece.closing
      ++ (Piece.opening ++ "#hide b".toList ++ Piece.closing
      ++ (Piece.opening ++ "../x".toList ++ Piece.closing
      ++ (Piece.opening ++ "/hide".toList ++ Piece.closing
      ++ (Piece.opening ++ "/each".toList ++ Piece.closing ++ []))))) = _
    rw [Piece.ofText_tag (by decide), Piece.ofText_tag (by decide), Piece.ofText_tag (by decide),
      Piece.ofText_tag (by decide), Piece.ofText_tag (by decide), Piece.ofText]
  have hnested : WellNested (Piece.marks (Piece.ofText (Text.escape
      "\x7b\x7b#each a\x7d\x7d\x7b\x7b#hide b\x7d\x7d\x7b\x7b../x\x7d\x7d\x7b\x7b/hide\x7d\x7d\x7b\x7b/each\x7d\x7d".toList))) := by
    rw [hpieces, wellNested_iff_nestAll]
    rfl
  have hminified : ({ minifier := .keep } : Compiler).minified (Text.trim
      "\x7b\x7b#each a\x7d\x7d\x7b\x7b#hide b\x7d\x7d\x7b\x7b../x\x7d\x7d\x7b\x7b/hide\x7d\x7d\x7b\x7b/each\x7d\x7d".toList)
      = .ok "\x7b\x7b#each a\x7d\x7d\x7b\x7b#hide b\x7d\x7d\x7b\x7b../x\x7d\x7d\x7b\x7b/hide\x7d\x7d\x7b\x7b/each\x7d\x7d".toList := rfl
  obtain ⟨codes, hcodes, hcompile, -, hscoping⟩ := scoping_compile hminified hnested
  obtain rfl := Except.ok.inj (hcodes.symm.trans (Stage.emitSegments_yields hnested).result_eq)
  rw [hpieces] at hcompile hscoping
  have hfirst : parameters ((Directive.ofInner "#each a".toList).code {} 0) =
      ["m1".toList, "k1".toList] := Directive.parameters_code rfl 0
  have haround : FunctionsAround ({} : Settings).functionOpening
      [(.tag "#each a".toList, (Directive.ofInner "#each a".toList).code {} 0),
        (.tag "#hide b".toList, (Directive.ofInner "#hide b".toList).code {} 1)]
      [["m1".toList, "k1".toList], ["m0".toList]] := by
    rw [← hfirst]
    have heach := @FunctionsAround.each ({} : Settings).functionOpening [] [] _ "#each a".toList
      ((Directive.ofInner "#each a".toList).code {} 0) (.root .nil) rfl .nil
    exact @FunctionsAround.hide _ [_] [] _ _ _ heach rfl .nil
  obtain ⟨functions, hunique, target, current, hcode, htarget, -⟩ := hscoping
    [(.tag "#each a".toList, (Directive.ofInner "#each a".toList).code {} 0),
      (.tag "#hide b".toList, (Directive.ofInner "#hide b".toList).code {} 1)]
    "../x".toList _ _ rfl
  obtain rfl := (hunique _).1 haround
  have hread : readPath target ['x'] = target ++ ".x".toList := by simp [readPath]
  change _ = "'+".toList ++ readPath target ['x'] ++ "+'".toList at hcode
  have hthird : "'+".toList ++ target ++ ".x+'".toList =
      (Directive.ofInner "../x".toList).code {} 1 := by
    rw [hread] at hcode
    refine Eq.trans ?_ hcode.symm
    simp
  refine ⟨_, _, target, ["'):(''))+'".toList, "';\x7d).join('')+'".toList], ?_, haround, htarget⟩
  rw [hthird]
  exact hcompile

end Compiler

end Stencil
