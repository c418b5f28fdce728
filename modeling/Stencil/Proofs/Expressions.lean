import Mathlib.Data.List.Induction
import Stencil.Proofs.Cuts
import Stencil.Proofs.Quotes
import Stencil.Proofs.Reading
import Stencil.Proofs.Transparency

/-!
# Expressions in generated code

A template is escaped as a whole before its tags are read, so what is read in a tag is escaped too.
Escaping is done for string literals and an expression stands outside of them: a tag without a line
break has the kind that it has without escaping, and its expression is the escaped one. So the path
of an expression reaches the code as it was written exactly if it has no single quote.
-/

namespace Stencil

namespace Text

variable {s w : Text}

/-! ### Escaping texts without line breaks -/

private theorem quote_mem_escape (hs : ∀ c ∈ s, IsOrdinary c) (h : '\x27' ∈ s) :
    '\x27' ∈ escape s := by
  induction s with
  | nil => cases h
  | cons c s ih =>
      obtain ⟨hc, hs⟩ := List.forall_mem_cons.1 hs
      rw [escape_cons hc, List.mem_append]
      rcases List.mem_cons.1 h with rfl | hrest
      · exact .inl (by decide)
      · exact .inr (ih hs hrest)

theorem escape_eq_iff (hs : ∀ c ∈ s, IsOrdinary c) (hw : '\x27' ∉ w) : escape s = w ↔ s = w := by
  have hself (h : '\x27' ∉ s) : escape s = s :=
    escape_eq_self fun c hc => ⟨hs c hc, fun he => h (he ▸ hc)⟩
  constructor
  · rintro rfl
    exact (hself fun h => hw (quote_mem_escape hs h)).symm
  · rintro rfl
    exact hself hw

theorem escape_eq_self_iff (hs : ∀ c ∈ s, IsOrdinary c) : escape s = s ↔ '\x27' ∉ s := by
  refine ⟨fun h hmem => ?_, fun h => (escape_eq_iff hs h).2 rfl⟩
  induction s with
  | nil => cases hmem
  | cons c s ih =>
      obtain ⟨hc, hs⟩ := List.forall_mem_cons.1 hs
      by_cases hquote : c = '\x27'
      · rw [escape_cons hc, hquote] at h
        exact absurd (List.cons.inj h).1 (by decide)
      · rw [escape_cons_self hc hquote] at h
        exact ih hs (List.cons.inj h).2 (List.mem_of_ne_of_mem (Ne.symm hquote) hmem)

private theorem trimLeft_escape (hs : ∀ c ∈ s, IsOrdinary c) :
    trimLeft (escape s) = escape (trimLeft s) := by
  induction s with
  | nil => rw [escape_nil]; exact escape_nil.symm
  | cons c s ih =>
      obtain ⟨hc, hrest⟩ := List.forall_mem_cons.1 hs
      by_cases hquote : c = '\x27'
      · have hstay (t : Text) : trimLeft ('\x27' :: t) = '\x27' :: t := rfl
        rw [hquote, hstay, escape_cons (by decide)]
        rfl
      · rw [escape_cons_self hc hquote, trimLeft, trimLeft, List.dropWhile_cons,
          List.dropWhile_cons]
        split
        · exact ih hrest
        · exact (escape_cons_self hc hquote s).symm

private theorem trimRight_escape (hs : ∀ c ∈ s, IsOrdinary c) :
    trimRight (escape s) = escape (trimRight s) := by
  induction s using List.reverseRecOn with
  | nil => rw [escape_nil]; exact escape_nil.symm
  | append_singleton s c ih =>
      have hc : IsOrdinary c := hs c (by simp)
      have hlast : escape (s ++ [c]) = escape s ++ escapeUnit (some c) := by
        rw [escape_append fun d hd => by rwa [← Option.some.inj hd], escape_cons hc, escape_nil,
          List.append_nil]
      by_cases hblank : isBlank c = true
      · have hquote : c ≠ '\x27' := by
          rintro rfl
          cases hblank
        have hnil : trimRight [c] = [] := trimRight_eq_nil_iff.2 (by simpa using hblank)
        rw [hlast, escapeUnit, if_neg hquote, trimRight_append, trimRight_append, if_pos hnil,
          if_pos hnil]
        exact ih fun d hd => hs d (List.mem_append_left _ hd)
      · have hself : trimRight [c] = [c] := by simp [trimRight, hblank]
        have hunit : trimRight (escapeUnit (some c)) = escapeUnit (some c) := by
          rw [escapeUnit]
          split
          · rfl
          · exact hself
        have hkept (t u : Text) (hu : trimRight u = u) (hne : u ≠ []) :
            trimRight (t ++ u) = t ++ u := by
          rw [trimRight_append, hu, if_neg hne]
        rw [hkept s [c] hself (by simp), hlast, hkept _ _ hunit (escapeUnit_ne_nil _)]

theorem trim_escape (hs : ∀ c ∈ s, IsOrdinary c) : trim (escape s) = escape (trim s) := by
  rw [trim, trimLeft_escape hs, trimRight_escape, trim]
  exact fun c hc => hs c ((List.dropWhile_suffix _).subset hc)

/-- A word that escaping leaves alone begins an escaped text if it begins the text. -/
theorem isPrefix_escape_iff (hw : ∀ c ∈ w, IsOrdinary c ∧ c ≠ '\x27' ∧ c ≠ '\\')
    (hs : ∀ c ∈ s, IsOrdinary c) : w <+: escape s ↔ w <+: s := by
  constructor
  · intro h
    induction w generalizing s with
    | nil => exact List.nil_prefix
    | cons c w ih =>
        obtain ⟨⟨-, hquote, hback⟩, hw⟩ := List.forall_mem_cons.1 hw
        match s with
        | [] => simp at h
        | d :: s =>
            obtain ⟨hd, hrest⟩ := List.forall_mem_cons.1 hs
            by_cases hdquote : d = '\x27'
            · rw [escape_cons hd, hdquote] at h
              exact absurd (List.cons_prefix_cons.1 h).1 hback
            · rw [escape_cons_self hd hdquote, List.cons_prefix_cons] at h
              exact List.cons_prefix_cons.2 ⟨h.1, ih hw hrest h.2⟩
  · rintro ⟨rest, rfl⟩
    rw [escape_append_of_plain fun c hc => ⟨(hw c hc).1, (hw c hc).2.1⟩]
    exact List.prefix_append w _

end Text

/-! ### Escaped tags -/

variable {s : Settings} {inner e : Text}

theorem Directive.mem_of_mem_expression {c : Char} (h : c ∈ (ofInner inner).expression) :
    c ∈ inner := by
  refine (Text.trim_isInfix inner).subset ?_
  rcases ofInner_cases inner with ⟨kind, rest, -, hrest, hinner⟩ | ⟨-, hinner⟩
  · rw [hinner] at h
    rw [hrest]
    exact List.mem_append_right _ ((Text.trim_isInfix rest).subset h)
  · rwa [hinner] at h

/-- An escaped tag is of the same kind, and its expression is escaped. -/
theorem Directive.ofInner_escape (h : ∀ c ∈ inner, Text.IsOrdinary c) :
    ofInner (Text.escape inner) =
      ⟨(ofInner inner).kind, Text.escape (ofInner inner).expression⟩ := by
  have htrimmed : ∀ c ∈ Text.trim inner, Text.IsOrdinary c :=
    fun c hc => h c ((Text.trim_isInfix inner).subset hc)
  have hplain (kind : Kind) (c : Char) (hc : c ∈ kind.keyword) :
      Text.IsOrdinary c ∧ c ≠ '\x27' ∧ c ≠ '\\' := by
    obtain ⟨hordinary, hquote, hback, -⟩ := kind.of_mem_keyword c hc
    exact ⟨hordinary, hquote, hback⟩
  rcases ofInner_cases inner with ⟨kind, rest, hkind, hrest, hinner⟩ | ⟨hno, hinner⟩
  · rw [hrest] at htrimmed
    have hescaped : Text.trim (Text.escape inner) = kind.keyword ++ Text.escape rest := by
      rw [Text.trim_escape h, hrest, Text.escape_append_of_plain fun c hc =>
        ⟨(hplain kind c hc).1, (hplain kind c hc).2.1⟩]
    rw [ofInner_of_trim hkind hescaped, hinner,
      Text.trim_escape fun c hc => htrimmed c (List.mem_append_right _ hc)]
  · rw [ofInner_of_no_keyword, hinner, Text.trim_escape h]
    intro kind hkind hfront
    rw [Text.trim_escape h, Text.isPrefix_escape_iff (hplain kind) htrimmed] at hfront
    exact hno kind hkind hfront

theorem splitParents_escape (h : ∀ c ∈ e, Text.IsOrdinary c) :
    splitParents (Text.escape e) = ((splitParents e).1, Text.escape (splitParents e).2) := by
  fun_induction splitParents e with
  | case1 r ih =>
      have hplain : ∀ c ∈ "../".toList, Text.IsOrdinary c ∧ c ≠ '\x27' := by decide
      have hmarker : Text.escape ('.' :: '.' :: '/' :: r) = '.' :: '.' :: '/' :: Text.escape r :=
        Text.escape_append_of_plain hplain r
      rw [hmarker, splitParents_marker, ih fun c hc => h c (by simp [hc])]
  | case2 e hno =>
      rw [splitParents]
      intro r hr
      have hmarker : "../".toList <+: Text.escape e := ⟨r, hr.symm⟩
      rw [Text.isPrefix_escape_iff (by decide) h] at hmarker
      obtain ⟨rest, hrest⟩ := hmarker
      exact hno rest hrest.symm

theorem Binding.readPath_escape_eq_iff {path : Text} (h : ∀ c ∈ path, Text.IsOrdinary c)
    (model : Text) : readPath model (Text.escape path) = readPath model path ↔ '\x27' ∉ path := by
  have hself : Text.escape path = "this".toList ↔ path = "this".toList :=
    Text.escape_eq_iff h (by decide)
  simp only [readPath, hself]
  rw [← Text.escape_eq_self_iff h]
  split
  · next hthis =>
      subst hthis
      exact iff_of_true rfl rfl
  · rw [List.append_right_inj, List.cons.injEq, and_iff_right rfl]

/-! ### Escaped pieces -/

namespace Piece

/-- The depth of the place behind pieces, at whose begin no block is open. -/
def depthBehind (ps : List Piece) : Nat := (marks ps).foldl Mark.depthAfter 0

variable {ps : List Piece}

private theorem marks_map_escaped
    (h : ∀ inner, tag inner ∈ ps → ∀ c ∈ inner, Text.IsOrdinary c) :
    marks (ps.map escaped) = marks ps := by
  rw [marks, marks, List.filterMap_map]
  refine List.filterMap_congr fun p hp => ?_
  cases p with
  | literal t => rfl
  | tag inner =>
      rw [Function.comp_apply, escaped, mark?, mark?, Directive.ofInner_escape (h inner hp)]

private theorem of_zip_codeAll_escaped {depth : Nat} {before after : List (Piece × Text)}
    {p : Piece} {code : Text}
    (h : ps.zip (codeAll s depth (ps.map escaped)) = before ++ (p, code) :: after) :
    ps = before.map Prod.fst ++ p :: after.map Prod.fst ∧
      code = p.escaped.code s
        ((marks ((before.map Prod.fst).map escaped)).foldl Mark.depthAfter depth) ∧
      before.map Prod.snd = codeAll s depth ((before.map Prod.fst).map escaped) := by
  have hescaped : (ps.map escaped).zip (codeAll s depth (ps.map escaped)) =
      before.map (Prod.map escaped id) ++
        (p.escaped, code) :: after.map (Prod.map escaped id) := by
    rw [List.zip_map_left, h, List.map_append, List.map_cons]
    rfl
  obtain ⟨-, hbefore, hcode⟩ := of_zip_codeAll_eq_append hescaped
  have hfirst : (before.map (Prod.map escaped id)).map Prod.fst =
      (before.map Prod.fst).map escaped := by
    simp
  rw [hfirst] at hcode hbefore
  have hpieces := congrArg (List.map Prod.fst) h
  rw [List.map_fst_zip (by rw [length_codeAll, List.length_map]), List.map_append,
    List.map_cons] at hpieces
  refine ⟨hpieces, hcode, ?_⟩
  have hsecond := congrArg (List.map Prod.snd) hbefore
  rw [List.map_snd_zip length_codeAll.le] at hsecond
  rw [← hsecond]
  simp

/-- The code of an escaped tag has the escaped path of its expression, read in the model that the
parent markers of the tag lead to. -/
theorem code_escaped_tag {kind : Kind} {depth parents : Nat} {path front back : Text}
    (hinner : ∀ a ∈ inner, Text.IsOrdinary a) (hd : Directive.ofInner inner = ⟨kind, e⟩)
    (hpath : splitParents e = (parents, path))
    (haround : kind.around? s depth = some (front, back)) :
    (tag inner).escaped.code s depth =
        front ++ Binding.readPath (s.model (depth - parents)) (Text.escape path) ++ back ∧
      ∀ a ∈ path, Text.IsOrdinary a := by
  have he : ∀ a ∈ e, Text.IsOrdinary a :=
    fun a ha => hinner a (Directive.mem_of_mem_expression (by rwa [hd]))
  have hescaped : Directive.ofInner (Text.escape inner) = ⟨kind, Text.escape e⟩ := by
    rw [Directive.ofInner_escape hinner, hd]
  have hsplit := splitParents_escape he
  rw [hpath] at hsplit
  constructor
  · rw [escaped, code, hescaped, Directive.code_of_around? haround, Settings.reference, hsplit]
    rfl
  · intro a ha
    refine he a ?_
    rw [eq_of_splitParents e, hpath]
    exact List.mem_append_right _ ha

end Piece

namespace Compiler

open Binding

variable {c : Compiler} {source : Text}

theorem result_compile_codeAll (hminify : c.options.wantsMinify (Text.trim source) = false)
    (hnested : c.settings.strictScopes = true → WellNested (Piece.marks (Piece.ofSource source))) :
    (c.compile source).result =
      .ok (c.wrapped (Piece.codeAll c.settings 0 (Piece.ofSource source)).code) := by
  match hs : c.settings.strictScopes with
  | true => exact result_compile_of_wellNested hminify (hnested hs)
  | false =>
      obtain ⟨fragments, hfragments⟩ := Stage.emitSegments_succeeds hs
        (Segment.locate 0 (Piece.ofSource source)) {}
      obtain rfl := Segment.of_result_emitSegments hfragments
      rw [Segment.codeAll_locate] at hfragments
      rw [result_compile hminify, emission, hfragments]

/-- A tag without line breaks that reads an expression has its path in the code, escaped as if it
stood in a string literal, which is as it was written exactly if it has no single quote. It stands
outside of string literals if the pieces before it leave the reader in the literal behind them. -/
theorem expressions_compile (c : Compiler) {source : Text}
    (hminify : c.options.wantsMinify (Text.trim source) = false)
    (hnested : c.settings.strictScopes = true → WellNested (Piece.marks (Piece.ofSource source)))
    (hordinary : ∀ inner, .tag inner ∈ Piece.ofText source → ∀ a ∈ inner, Text.IsOrdinary a) :
    ∃ codes : List Text,
      (c.compile source).result =
        .ok (c.settings.functionOpening ++ codes.flatten ++ functionClosing) ∧
      codes.length = (Piece.ofText (Text.trim source)).length ∧
      ∀ before inner code after kind e parents path front back,
        (Piece.ofText (Text.trim source)).zip codes = before ++ (.tag inner, code) :: after →
        Directive.ofInner inner = ⟨kind, e⟩ → splitParents e = (parents, path) →
        kind.around? c.settings (Piece.depthBehind (before.map Prod.fst)) = some (front, back) →
        ∃ model, model = c.settings.model (Piece.depthBehind (before.map Prod.fst) - parents) ∧
          code = front ++ readPath model (Text.escape path) ++ back ∧
          (code = front ++ readPath model path ++ back ↔ '\x27' ∉ path) ∧
          (c.settings.HasClosedNames → (∀ x ∈ before, x.1.escaped.StaysQuoted) →
            Quoting.code.after (c.settings.functionOpening ++ (before.map Prod.snd).flatten
              ++ front) = .code) := by
  have hsource : Piece.ofSource source = (Piece.ofText (Text.trim source)).map Piece.escaped :=
    Piece.ofText_escape _
  refine ⟨_, result_compile_codeAll hminify hnested, ?_, ?_⟩
  · rw [Piece.length_codeAll, hsource, List.length_map]
  · intro before inner code after kind e parents path front back hplace hd hpath haround
    have htags : ∀ i, .tag i ∈ Piece.ofText (Text.trim source) → ∀ a ∈ i, Text.IsOrdinary a :=
      fun i hi => hordinary i (Piece.tag_mem_of_trim hi)
    rw [hsource] at hplace
    obtain ⟨hpieces, hcode, hbefore⟩ := Piece.of_zip_codeAll_escaped hplace
    rw [hpieces] at htags
    rw [Piece.marks_map_escaped fun i hi => htags i (List.mem_append_left _ hi)] at hcode
    obtain ⟨htag, hp⟩ := Piece.code_escaped_tag (htags inner (by simp)) hd hpath haround
    have hwritten := hcode.trans htag
    refine ⟨_, rfl, hwritten, ?_, fun hnames hpiecesBefore => ?_⟩
    · rw [hwritten, List.append_left_inj, List.append_right_inj, readPath_escape_eq_iff hp]
    · have hbody : Text.StaysQuoted (before.map Prod.snd).flatten := by
        rw [hbefore]
        refine Piece.staysQuoted_codeAll hnames fun p hp => ?_
        simp only [List.map_map, List.mem_map, Function.comp_apply] at hp
        obtain ⟨x, hx, rfl⟩ := hp
        exact hpiecesBefore x hx
      rw [Quoting.after_append, Quoting.after_append, hnames.after_functionOpening, hbody]
      exact (Kind.after_of_around? hnames haround).1

/-- Quotes in literal text before a tag, and double quotes in the tag. -/
theorem expressions_compile_double_quotes :
    ({} : Options).wantsMinify (Text.trim "it's \x7b\x7b../a[\x22b\x22]\x7d\x7d".toList) = false ∧
      (∀ inner, .tag inner ∈ Piece.ofText "it's \x7b\x7b../a[\x22b\x22]\x7d\x7d".toList →
        ∀ a ∈ inner, Text.IsOrdinary a) ∧
      ∃ first : Text,
        (({ minifier := .keep } : Compiler).compile
          "it's \x7b\x7b../a[\x22b\x22]\x7d\x7d".toList).result =
          .ok (({} : Settings).functionOpening
            ++ List.flatten [first, "'+m0.a[\x22b\x22]+'".toList] ++ functionClosing) ∧
        Quoting.code.after (({} : Settings).functionOpening ++ first ++ "'+".toList) = .code := by
  have hpieces : Piece.ofText "it's \x7b\x7b../a[\x22b\x22]\x7d\x7d".toList =
      [.literal "it's ".toList, .tag "../a[\x22b\x22]".toList] := by
    change Piece.ofText ("it's ".toList ++
      (Piece.opening ++ "../a[\x22b\x22]".toList ++ Piece.closing ++ [])) = _
    rw [Piece.ofText_append (by decide) (by decide), Piece.ofText_tag (by decide), Piece.ofText]
    rfl
  have hordinary : ∀ inner, .tag inner ∈ Piece.ofText
      "it's \x7b\x7b../a[\x22b\x22]\x7d\x7d".toList → ∀ a ∈ inner, Text.IsOrdinary a := by
    intro inner hinner
    rw [hpieces] at hinner
    obtain rfl : inner = "../a[\x22b\x22]".toList := by simpa using hinner
    decide
  obtain ⟨codes, hresult, hlength, hplaced⟩ :=
    expressions_compile { minifier := .keep } rfl (fun hstrict => by cases hstrict) hordinary
  change codes.length = (Piece.ofText "it's \x7b\x7b../a[\x22b\x22]\x7d\x7d".toList).length
    at hlength
  change ∀ before inner code after kind e parents path front back,
    (Piece.ofText "it's \x7b\x7b../a[\x22b\x22]\x7d\x7d".toList).zip codes = _ → _ at hplaced
  rw [hpieces] at hlength hplaced
  obtain ⟨first, second, rfl⟩ := List.length_eq_two.1 hlength
  obtain ⟨-, rfl, hcode, -, hcloses⟩ := hplaced [(.literal "it's ".toList, first)] _ second []
    .interpolation "../a[\x22b\x22]".toList 1 "a[\x22b\x22]".toList "'+".toList "+'".toList rfl
    rfl rfl rfl
  have hself : Text.escape "a[\x22b\x22]".toList = "a[\x22b\x22]".toList :=
    Text.escape_eq_self (by decide)
  change second = "'+".toList ++ readPath (({} : Settings).model 0) _ ++ "+'".toList at hcode
  rw [hself] at hcode
  have hsecond : second = "'+m0.a[\x22b\x22]+'".toList := hcode.trans rfl
  have hfirst := hcloses Settings.hasClosedNames_default fun x hx => by
    obtain rfl := List.mem_singleton.1 hx
    exact Text.staysQuoted_escape (by decide)
  rw [hsecond] at hresult
  refine ⟨rfl, hordinary, first, hresult, ?_⟩
  simpa using hfirst

/-- Single quotes of an expression are escaped though it stands outside of string literals, and a
backslash before a tag leaves its expression inside of one. -/
theorem expressions_compile_single_quotes :
    (({ minifier := .keep } : Compiler).compile "\x7b\x7ba['b']\x7d\x7d".toList).result =
        .ok "function(m0)\x7breturn ''+m0.a[\\'b\\']+'';\x7d".toList ∧
      "function(m0)\x7breturn ''+m0.a[\\'b\\']+'';\x7d".toList ≠
        "function(m0)\x7breturn ''+m0.a['b']+'';\x7d".toList ∧
      (({ minifier := .keep } : Compiler).compile "\\\x7b\x7ba\x7d\x7d".toList).result =
        .ok "function(m0)\x7breturn '\\'+m0.a+'';\x7d".toList ∧
      Quoting.code.after "function(m0)\x7breturn '\\'+".toList = .literal '\x27' := by
  have hquotes : Piece.ofSource "\x7b\x7ba['b']\x7d\x7d".toList =
      [.tag "a[\\'b\\']".toList] :=
    Piece.ofText_tags ["a[\\'b\\']".toList] (by decide)
  have hbackslash : Piece.ofSource "\\\x7b\x7ba\x7d\x7d".toList =
      [.literal "\\".toList, .tag "a".toList] := by
    change Piece.ofText ("\\".toList ++
      (Piece.opening ++ "a".toList ++ Piece.closing ++ [])) = _
    rw [Piece.ofText_append (by decide) (by decide), Piece.ofText_tag (by decide), Piece.ofText]
    rfl
  refine ⟨?_, by decide, ?_, by decide⟩
  · refine (result_compile_codeAll rfl fun hstrict => by cases hstrict).trans ?_
    rw [hquotes]
    rfl
  · refine (result_compile_codeAll rfl fun hstrict => by cases hstrict).trans ?_
    rw [hbackslash]
    rfl

end Compiler

end Stencil
