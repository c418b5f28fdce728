import Stencil.Proofs.Naming

/-!
# What the names of keys refer to

A key is named by the depth of the place, and the function of an each block has the key of its own
depth as its second parameter. Inside an each block the key of a place is therefore the parameter of
the innermost function around it. Outside of every each block the depth is 0, and its key is written
all the same: the function of the template has the model as its only parameter, so this name refers
to nothing.

That no other code refers to a key is said by comparison: under another name for keys, the code of a
directive other than a key is the same up to the parameters of the functions that it opens.
-/

namespace Stencil

open Binding

namespace Settings

/-- The key of a depth is a parameter of the innermost function, unless the depth is 0. -/
theorem find?_key_functionsAt (depth : Nat) :
    find? (({} : Settings).key depth) (({} : Settings).functionsAt depth) =
      if depth = 0 then none else some (0, 1) := by
  split
  · next h =>
      subst h
      rw [functionsAt, find?_cons_of_not_mem (by simpa using (model_ne_key 0 0).symm)]
      rfl
  · next h => rw [find?_key model_ne_key (Nat.pos_of_ne_zero h) le_rfl, Nat.sub_self]

end Settings

namespace Directive

/-- How the code of a directive refers to keys, with the functions around it. The code is given for
every name that the settings can have for keys. -/
def RefersToKeys (functions : List (List Text)) (d : Directive) (code : Text → Text) : Prop :=
  match d.kind with
  | .key => ∃ name, code ({} : Settings).keyName = "'+".toList ++ name ++ "+'".toList ∧
      find? name functions = if functions.length = 1 then none else some (0, 1)
  | .each => ∃ (front : Text) (parameter : Text → Text),
      (∀ keyName, code keyName = front ++ ',' :: parameter keyName ++ ") \x7b return '".toList) ∧
      ∃ model, parameters (code ({} : Settings).keyName) =
        [model, parameter ({} : Settings).keyName]
  | _ => ∀ keyName, code keyName = code ({} : Settings).keyName

theorem refersToKeys_code (d : Directive) (depth : Nat) :
    d.RefersToKeys (({} : Settings).functionsAt depth)
      fun keyName => d.code { keyName } depth := by
  obtain ⟨kind, e⟩ := d
  cases kind with
  | key =>
      refine ⟨_, rfl, ?_⟩
      rw [Settings.length_functionsAt, Settings.find?_key_functionsAt]
      simp
  | each =>
      have hhead : parameters (Directive.code {} depth ⟨.each, e⟩) = _ := parameters_code rfl depth
      exact ⟨"'+".toList ++ ({} : Settings).mapMethod ++ '(' :: ({} : Settings).reference depth e
        ++ ", function(".toList ++ ({} : Settings).model (depth + 1),
        fun keyName => Settings.key { keyName } (depth + 1), fun keyName => rfl, _, hhead⟩
  | eachEnd | hide | hideEnd | selectedIf | checkedIf | partialCall | interpolation =>
      exact fun keyName => rfl

end Directive

namespace Piece

/-- How the code of a piece refers to keys: that of literal text is the text itself. -/
def RefersToKeys (functions : List (List Text)) (code : Text → Text) : Piece → Prop
  | literal t => ∀ keyName, code keyName = t
  | tag inner => (Directive.ofInner inner).RefersToKeys functions code

theorem refersToKeys_code (p : Piece) (depth : Nat) :
    p.RefersToKeys (({} : Settings).functionsAt depth) fun keyName => p.code { keyName } depth := by
  match p with
  | literal t => exact fun _ => rfl
  | tag inner => exact Directive.refersToKeys_code (Directive.ofInner inner) depth

private theorem getElem?_codeAll_append (s : Settings) (depth : Nat) (ps : List Piece) (p : Piece)
    (qs : List Piece) : (codeAll s depth (ps ++ p :: qs))[ps.length]? =
      some (p.code s ((marks ps).foldl Mark.depthAfter depth)) := by
  rw [codeAll_append, List.getElem?_append_right length_codeAll.le, length_codeAll, Nat.sub_self]
  rfl

end Piece

theorem Binding.functionsAround_iff {ps : List Piece} (hnested : WellNested (Piece.marks ps))
    {before after : List (Piece × Text)} {p : Piece} {code : Text}
    (h : ps.zip (Piece.codeAll {} 0 ps) = before ++ (p, code) :: after)
    (functions : List (List Text)) :
    FunctionsAround ({} : Settings).functionOpening before functions ↔
      functions = ({} : Settings).functionsAt
        ((Piece.marks (before.map Prod.fst)).foldl Mark.depthAfter 0) := by
  obtain ⟨hpieces, hbefore, -⟩ := Piece.of_zip_codeAll_eq_append h
  have hblocks := hnested.nestAll_eq []
  rw [hpieces, Piece.nestAll_marks_append] at hblocks
  obtain ⟨blocks, hblocks, -⟩ := hblocks
  obtain ⟨others, hothers⟩ := exists_functionsAround ({} : Settings).functionOpening hblocks
  constructor
  · exact fun hfunctions => hfunctions.eq_functionsAt hbefore.symm
  · rintro rfl
    rwa [hothers.eq_functionsAt hbefore.symm] at hothers

namespace Compiler

/-- Inside an each block the code of a key refers to the key parameter of the innermost function.
Outside of all of them it refers to no parameter. No other code refers to a key, since under
another name for keys it is the same but for the parameters of each blocks. The text is what is
compiled: the trimmed template, minified if the options ask for it. -/
theorem keys_compile {options : Options} {minifier : Minifier} {source text : Text}
    (hminified : ({ options, minifier } : Compiler).minified (Text.trim source) = .ok text)
    (hnested : WellNested (Piece.marks (Piece.ofText (Text.escape text)))) :
    ∃ codes : Text → List Text,
      (∀ keyName, (Stage.emitSegments { keyName } (Segment.scan (Text.escape text)) {}).result =
        .ok (codes keyName)) ∧
      (({ options, minifier } : Compiler).compile source).result =
        .ok (({} : Settings).functionOpening ++ (codes ({} : Settings).keyName).flatten
          ++ functionClosing) ∧
      (codes ({} : Settings).keyName).length = (Piece.ofText (Text.escape text)).length ∧
      ∀ before p code after,
        (Piece.ofText (Text.escape text)).zip (codes ({} : Settings).keyName) =
          before ++ (p, code) :: after →
        ∃ functions, (∀ other,
            FunctionsAround ({} : Settings).functionOpening before other ↔ other = functions) ∧
          ∃ codeFor : Text → Text, codeFor ({} : Settings).keyName = code ∧
            (∀ keyName, (codes keyName)[before.length]? = some (codeFor keyName)) ∧
            p.RefersToKeys functions codeFor := by
  have hyields (keyName : Text) :=
    (Stage.emitSegments_yields (s := { keyName }) hnested).result_eq
  have hcode := result_compile_of_emitted hminified (hyields ({} : Settings).keyName)
  refine ⟨_, hyields, hcode, Piece.length_codeAll, ?_⟩
  intro before p code after hplace
  obtain ⟨hpieces, -, rfl⟩ := Piece.of_zip_codeAll_eq_append hplace
  refine ⟨_, functionsAround_iff hnested hplace, fun keyName => p.code { keyName }
    ((Piece.marks (before.map Prod.fst)).foldl Mark.depthAfter 0), rfl, fun keyName => ?_,
    p.refersToKeys_code _⟩
  rw [hpieces, ← List.length_map Prod.fst]
  exact Piece.getElem?_codeAll_append _ _ _ _ _

/-- A key inside an each block is the second parameter of its function. -/
theorem keys_compile_each :
    ∃ (each name : Text) (rest : List Text),
      (({ minifier := .keep } : Compiler).compile
        "\x7b\x7b#each a\x7d\x7d\x7b\x7b@key\x7d\x7d\x7b\x7b/each\x7d\x7d".toList).result
        = .ok (({} : Settings).functionOpening
            ++ List.flatten (each :: ("'+".toList ++ name ++ "+'".toList) :: rest)
            ++ functionClosing) ∧
      FunctionsAround ({} : Settings).functionOpening [(.tag "#each a".toList, each)]
        [["m1".toList, "k1".toList], ["m0".toList]] ∧
      find? name [["m1".toList, "k1".toList], ["m0".toList]] = some (0, 1) := by
  have hpieces : Piece.ofText (Text.escape
      "\x7b\x7b#each a\x7d\x7d\x7b\x7b@key\x7d\x7d\x7b\x7b/each\x7d\x7d".toList)
      = [.tag "#each a".toList, .tag "@key".toList, .tag "/each".toList] :=
    Piece.ofText_tags ["#each a".toList, "@key".toList, "/each".toList] (by decide)
  have hnested : WellNested (Piece.marks (Piece.ofText (Text.escape
      "\x7b\x7b#each a\x7d\x7d\x7b\x7b@key\x7d\x7d\x7b\x7b/each\x7d\x7d".toList))) := by
    rw [hpieces, wellNested_iff_nestAll]
    rfl
  have hminified : ({ minifier := .keep } : Compiler).minified (Text.trim
      "\x7b\x7b#each a\x7d\x7d\x7b\x7b@key\x7d\x7d\x7b\x7b/each\x7d\x7d".toList)
      = .ok "\x7b\x7b#each a\x7d\x7d\x7b\x7b@key\x7d\x7d\x7b\x7b/each\x7d\x7d".toList := rfl
  obtain ⟨codes, hcodes, hcompile, -, hkeys⟩ := keys_compile hminified hnested
  have hemitted := (hcodes ({} : Settings).keyName).symm.trans
    (Stage.emitSegments_yields (s := {}) hnested).result_eq
  rw [Except.ok.inj hemitted, hpieces] at hcompile hkeys
  have haround : FunctionsAround ({} : Settings).functionOpening
      [(.tag "#each a".toList, (Directive.ofInner "#each a".toList).code {} 0)]
      [["m1".toList, "k1".toList], ["m0".toList]] := by
    have hparameters : parameters ((Directive.ofInner "#each a".toList).code {} 0) =
        ["m1".toList, "k1".toList] := Directive.parameters_code rfl 0
    rw [← hparameters]
    exact @FunctionsAround.each ({} : Settings).functionOpening [] [] _ "#each a".toList _
      (.root .nil) rfl .nil
  obtain ⟨functions, hunique, codeFor, hcode, -, hrefers⟩ := hkeys
    [(.tag "#each a".toList, (Directive.ofInner "#each a".toList).code {} 0)]
    (.tag "@key".toList) _ _ rfl
  obtain rfl := (hunique _).1 haround
  obtain ⟨name, hname, hfind⟩ := hrefers
  refine ⟨_, name, ["';\x7d).join('')+'".toList], ?_, haround, hfind⟩
  rw [← hname, hcode]
  exact hcompile

/-- A key outside of every each block refers to nothing. -/
theorem keys_compile_outside :
    Piece.ofText (Text.escape "\x7b\x7b@key\x7d\x7d".toList) = [.tag "@key".toList] ∧
      WellNested (Piece.marks (Piece.ofText (Text.escape "\x7b\x7b@key\x7d\x7d".toList))) ∧
      (({ minifier := .keep } : Compiler).compile "\x7b\x7b@key\x7d\x7d".toList).result =
        .ok "function(m0)\x7breturn ''+k0+'';\x7d".toList ∧
      ∀ functions, FunctionsAround ({} : Settings).functionOpening [] functions →
        find? "k0".toList functions = none := by
  have hpieces :
      Piece.ofText (Text.escape "\x7b\x7b@key\x7d\x7d".toList) = [.tag "@key".toList] :=
    Piece.ofText_tags ["@key".toList] (by decide)
  have hnested : WellNested (Piece.marks
      (Piece.ofText (Text.escape "\x7b\x7b@key\x7d\x7d".toList))) := by
    rw [hpieces]
    exact .nil
  refine ⟨hpieces, hnested, ?_, fun functions hfunctions => ?_⟩
  · have hsource : WellNested (Piece.marks (Piece.ofSource "\x7b\x7b@key\x7d\x7d".toList)) :=
      hnested
    refine (result_compile_of_wellNested rfl hsource).trans ?_
    change Except.ok (wrapped _ (Piece.codeAll {} 0
      (Piece.ofText (Text.escape "\x7b\x7b@key\x7d\x7d".toList))).code) = _
    rw [hpieces]
    rfl
  · rw [hfunctions.eq_functionsAt rfl]
    exact Settings.find?_key_functionsAt 0

end Compiler

end Stencil
