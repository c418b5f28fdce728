import Stencil.Proofs.Expressions
import Stencil.Proofs.Lexing
import Stencil.Proofs.Transparency

/-!
# Generated code is one line

Escaping leaves no line break in a text. For each break there is a backslash and an `n` more than
before, and no other such pair comes or goes: in the escaped text an `n` stands behind a backslash
if the two are a break, or if they stood side by side before, because an escaped quote ends in a
quote. What a compilation gives is made of pieces of an escaped text, which neither cutting nor
trimming breaks, of names in the settings and of fixed words. So under the default settings it is
one line, whatever the minifier gives and whatever the order of blocks is.
-/

namespace Stencil

namespace Text

def occurrences (w : Text) : Text → Nat
  | [] => 0
  | c :: r => (if w <+: c :: r then 1 else 0) + occurrences w r

def IsSingleLine (s : Text) : Prop := ∀ c ∈ s, IsOrdinary c

instance (s : Text) : Decidable s.IsSingleLine := inferInstanceAs (Decidable (∀ c ∈ s, _))

variable {s t : Text}

theorem IsSingleLine.append (hs : s.IsSingleLine) (ht : t.IsSingleLine) :
    (s ++ t).IsSingleLine :=
  List.forall_mem_append.2 ⟨hs, ht⟩

theorem IsSingleLine.cons {c : Char} (hc : IsOrdinary c) (hs : s.IsSingleLine) :
    IsSingleLine (c :: s) :=
  List.forall_mem_cons.2 ⟨hc, hs⟩

theorem IsSingleLine.of_isInfix (h : t.IsSingleLine) (hpart : s <:+: t) : s.IsSingleLine :=
  fun c hc => h c (hpart.subset hc)

/-! ### Escaped text -/

private theorem isSingleLine_escapeUnit {u : Option Char} (hu : ∀ c ∈ u, IsOrdinary c) :
    (escapeUnit u).IsSingleLine := by
  match u with
  | none => decide
  | some c =>
      rw [escapeUnit]
      split
      · decide
      · intro d hd
        obtain rfl := List.mem_singleton.1 hd
        exact hu d rfl

theorem isSingleLine_escape (s : Text) : (escape s).IsSingleLine := by
  intro c hc
  obtain ⟨u, hu, hc⟩ := List.mem_flatMap.1 hc
  refine isSingleLine_escapeUnit (fun d hd => ?_) c hc
  obtain rfl := Option.mem_def.1 hd
  exact (of_some_mem_units hu).2

private theorem occurrences_pair_cons (a b c : Char) (s : Text) :
    occurrences [a, b] (c :: s) =
      (if a = c ∧ s.head? = some b then 1 else 0) + occurrences [a, b] s := by
  have hfront : [a, b] <+: c :: s ↔ a = c ∧ s.head? = some b := by
    cases s <;> simp [List.cons_prefix_cons, eq_comm]
  rw [occurrences]
  simp only [hfront]

/-- Escaping writes a backslash and an `n` for each line break, and makes or parts no other such
pair. -/
theorem occurrences_escape (s : Text) :
    occurrences ['\\', 'n'] (escape s) = (units s).count none + occurrences ['\\', 'n'] s := by
  have hother {c : Char} (hc : c ≠ '\\') (t : Text) :
      occurrences ['\\', 'n'] (c :: t) = occurrences ['\\', 'n'] t := by
    rw [occurrences_pair_cons, if_neg fun h => hc h.1.symm, Nat.zero_add]
  have hbreak (t : Text) :
      occurrences ['\\', 'n'] (escapeUnit none ++ t) = occurrences ['\\', 'n'] t + 1 := by
    change occurrences _ ('\\' :: 'n' :: t) = _
    rw [occurrences_pair_cons, if_pos ⟨rfl, rfl⟩, hother (by decide), Nat.add_comm]
  have hquote (t : Text) :
      occurrences ['\\', 'n'] ('\\' :: '\x27' :: t) = occurrences ['\\', 'n'] t := by
    rw [occurrences_pair_cons, if_neg (by simp), hother (by decide), Nat.zero_add]
  rw [escape]
  fun_induction units s with
  | case1 r ih | case2 r ih =>
      rw [List.flatMap_cons, hbreak, ih, List.count_cons_self, hother (by decide),
        hother (by decide), Nat.add_right_comm]
  | case3 r hne ih | case4 r hne ih =>
      rw [List.flatMap_cons, hbreak, ih, List.count_cons_self, hother (by decide),
        Nat.add_right_comm]
  | case5 c r h1 h2 h3 h4 ih =>
      have hhead : (escape r).head? = some 'n' ↔ r.head? = some 'n' :=
        head?_escape_iff (by decide) (by decide) (by decide) r
      rw [List.flatMap_cons, List.count_cons_of_ne (by simp), escapeUnit]
      split
      · next hc =>
          subst hc
          rw [hother (by decide)]
          exact (hquote _).trans ih
      · rw [escape] at hhead
        rw [List.singleton_append, occurrences_pair_cons, occurrences_pair_cons, ih]
        simp only [hhead]
        omega
  | case6 => rfl

end Text

/-! ### Code -/

namespace Settings

structure HasSingleLineNames (s : Settings) : Prop where
  modelName : s.modelName.IsSingleLine
  keyName : s.keyName.IsSingleLine
  partialName : s.partialName.IsSingleLine
  mapMethod : s.mapMethod.IsSingleLine

theorem hasSingleLineNames_default : ({} : Settings).HasSingleLineNames :=
  ⟨by decide, by decide, by decide, by decide⟩

theorem isSingleLine_identifier {stem : Text} (h : stem.IsSingleLine) (depth : Nat) :
    (identifier stem depth).IsSingleLine := by
  intro c hc
  rcases of_mem_identifier hc with hstem | hdigit
  · exact h c hstem
  · constructor <;> (rintro rfl; cases hdigit)

variable {s : Settings}

theorem HasSingleLineNames.model (hs : s.HasSingleLineNames) (depth : Nat) :
    (s.model depth).IsSingleLine :=
  isSingleLine_identifier hs.modelName depth

theorem HasSingleLineNames.key (hs : s.HasSingleLineNames) (depth : Nat) :
    (s.key depth).IsSingleLine :=
  isSingleLine_identifier hs.keyName depth

theorem HasSingleLineNames.reference (hs : s.HasSingleLineNames) {e : Text} (he : e.IsSingleLine)
    (depth : Nat) : (s.reference depth e).IsSingleLine := by
  have hpath : (splitParents e).2.IsSingleLine := fun c hc => he c (mem_of_mem_splitParents hc)
  change (s.member (depth - (splitParents e).1) (splitParents e).2).IsSingleLine
  rw [member]
  split
  · exact hs.model _
  · exact (hs.model _).append (.cons (by decide) hpath)

theorem HasSingleLineNames.attributeIf (hs : s.HasSingleLineNames) {e : Text}
    (he : e.IsSingleLine) (depth : Nat) {word : String} (hword : Text.IsSingleLine word.toList) :
    (s.attributeIf depth e word).IsSingleLine := by
  have hbegin : Text.IsSingleLine "'+((".toList := by decide
  have hequal : Text.IsSingleLine "==".toList := by decide
  have hvalue : Text.IsSingleLine "value".toList := by decide
  have hthen : Text.IsSingleLine ")?'".toList := by decide
  have hend : Text.IsSingleLine "':'')+'".toList := by decide
  have hcompared := ((hbegin.append (hs.reference he depth)).append hequal).append
    (hs.reference hvalue depth)
  exact ((hcompared.append hthen).append hword).append hend

end Settings

variable {s : Settings}

theorem Directive.isSingleLine_code (hs : s.HasSingleLineNames) {d : Directive}
    (he : d.expression.IsSingleLine) (depth : Nat) : (d.code s depth).IsSingleLine := by
  obtain ⟨kind, e⟩ := d
  have hreference := hs.reference he depth
  have hleave : Text.IsSingleLine "'+".toList := by decide
  have henter : Text.IsSingleLine "+'".toList := by decide
  cases kind with
  | each =>
      have hfunction : Text.IsSingleLine ", function(".toList := by decide
      have hreturn : Text.IsSingleLine ") \x7b return '".toList := by decide
      have hround : Text.IsOrdinary '(' := by decide
      have hcall := (hleave.append hs.mapMethod).append (.cons hround hreference)
      have hmodel := (hcall.append hfunction).append (hs.model (depth + 1))
      exact (hmodel.append (.cons (by decide) (hs.key (depth + 1)))).append hreturn
  | eachEnd => exact (by decide : Text.IsSingleLine "';\x7d).join('')+'".toList)
  | hide =>
      have hbegin : Text.IsSingleLine "'+(!(".toList := by decide
      have hthen : Text.IsSingleLine ")?('".toList := by decide
      exact (hbegin.append hreference).append hthen
  | hideEnd => exact (by decide : Text.IsSingleLine "'):(''))+'".toList)
  | selectedIf => exact hs.attributeIf he depth (by decide)
  | checkedIf => exact hs.attributeIf he depth (by decide)
  | partialCall =>
      have hend : Text.IsSingleLine ")+'".toList := by decide
      have hdot : Text.IsOrdinary '.' := by decide
      have hmember := (hleave.append hs.partialName).append (.cons hdot he)
      exact (hmember.append (.cons (by decide) (hs.model depth))).append hend
  | key => exact (hleave.append (hs.key depth)).append henter
  | interpolation => exact (hleave.append hreference).append henter

private theorem Piece.isSingleLine_codeAll (hs : s.HasSingleLineNames) {ps : List Piece}
    (h : ∀ p ∈ ps, p.text.IsSingleLine) (depth : Nat) :
    (Fragments.code (codeAll s depth ps)).IsSingleLine := by
  induction ps generalizing depth with
  | nil => exact List.forall_mem_nil _
  | cons p ps ih =>
      obtain ⟨hp, hps⟩ := List.forall_mem_cons.1 h
      have hfirst : (p.code s depth).IsSingleLine := by
        cases p with
        | literal t => exact hp
        | tag inner =>
            refine Directive.isSingleLine_code hs (fun c hc => hp c ?_) depth
            have hinner : c ∈ inner := Directive.mem_of_mem_expression hc
            simp [text, hinner]
      exact hfirst.append (ih hps _)

namespace Compiler

variable {c : Compiler}

private theorem isSingleLine_functionOpening (hs : s.HasSingleLineNames) :
    s.functionOpening.IsSingleLine := by
  have hfunction : Text.IsSingleLine "function(".toList := by decide
  have hreturn : Text.IsSingleLine ")\x7breturn '".toList := by decide
  exact (hfunction.append (hs.model 0)).append hreturn

theorem isSingleLine_wrapped (hs : c.settings.HasSingleLineNames) {body : Text}
    (h : body.IsSingleLine) : (c.wrapped body).IsSingleLine := by
  have hclosing : functionClosing.IsSingleLine := by decide
  exact ((isSingleLine_functionOpening hs).append h).append hclosing

/-- Code made from a template is one line. -/
theorem isSingleLine_of_finished (hs : c.settings.HasSingleLineNames) {text code : Text}
    (h : c.finished text = .ok code) : code.IsSingleLine := by
  rw [finished] at h
  cases hstep : (Stage.emitSegments c.settings (Segment.scan (Text.escape text)) {}).result with
  | error e =>
      rw [hstep] at h
      cases h
  | ok fragments =>
      rw [hstep] at h
      obtain rfl := Except.ok.inj h
      have hpieces : ∀ p ∈ Piece.ofText (Text.escape text), p.text.IsSingleLine := fun p hp =>
        (Text.isSingleLine_escape text).of_isInfix (Piece.text_isInfix_of_mem hp)
      rw [Segment.of_result_emitSegments hstep, Segment.scan, Segment.codeAll_locate]
      exact isSingleLine_wrapped hs (Piece.isSingleLine_codeAll hs hpieces _)

theorem isSingleLine_of_result_compile (hs : c.settings.HasSingleLineNames) {source code : Text}
    (h : (c.compile source).result = .ok code) : code.IsSingleLine := by
  rw [result_compile_eq] at h
  split at h
  · exact isSingleLine_of_finished hs h
  · obtain rfl := Except.ok.inj h
    exact isSingleLine_wrapped hs (by decide)
  · cases h

/-- In an escaped text there is no line break. It has a backslash and an `n` side by side for each
break there was, and where there were these two. So the default settings give code without line
breaks, with any options and any minifier, if they give code. -/
theorem isSingleLine_compile (source : Text) :
    (Text.escape source).IsSingleLine ∧
      Text.occurrences ['\\', 'n'] (Text.escape source) =
        Text.lineCount source - 1 + Text.occurrences ['\\', 'n'] source ∧
      ∀ options minifier code,
        (({ options, minifier } : Compiler).compile source).result = .ok code →
          code.IsSingleLine := by
  refine ⟨Text.isSingleLine_escape source, ?_, fun options minifier code h => ?_⟩
  · rw [Text.occurrences_escape, Text.lineCount, Nat.add_sub_cancel]
  · exact isSingleLine_of_result_compile Settings.hasSingleLineNames_default h

/-- A minifier that gives something else, with two kinds of line break. -/
theorem isSingleLine_compile_broken_answer :
    (({ options := { minify := true },
        minifier := .supplied fun _ _ => .ok (.string "it's\r\n\na".toList) } : Compiler).compile
        "a".toList).result =
      .ok "function(m0)\x7breturn 'it\\'s\\n\\na';\x7d".toList ∧
      Text.IsSingleLine "function(m0)\x7breturn 'it\\'s\\n\\na';\x7d".toList := by
  refine (and_iff_left_of_imp fun hresult => ?_).2 ?_
  · exact (isSingleLine_compile "a".toList).2.2 _ _ _ hresult
  · have hrestored (kept : List Text) :
        ({} : Settings).tagPlaceholders.restore kept "it's\r\n\na".toList =
          .ok "it's\r\n\na".toList := by
      rw [Placeholder.Format.restore, Placeholder.Format.parts_eq_map_char (by decide)]
      rfl
    rw [result_compile_eq, @minified_of_string _ _ "it's\r\n\na".toList rfl rfl,
      hrestored]
    exact (finished_of_not_hasTag _ (Piece.not_hasTag_of_not_mem (by decide))).trans rfl

end Compiler

end Stencil
