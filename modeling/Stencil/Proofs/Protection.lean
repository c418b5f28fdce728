import Stencil.Proofs.Completion

/-!
# Restoring protected tags

A template whose tags are hidden is read as the characters and placeholders of its literal text,
with one more placeholder where a tag was. Every one of them stands for a stretch of the template,
and restoring gives the template back if each is filled with the stretch that it stands for. That
fails only for a placeholder of the literal text which has the number of a tag: the tag that comes
in its place begins with a brace, and a placeholder does not, so the templates differ there.
-/

namespace Stencil

/-- Two functions put the same text together, if at every place where they differ the first
characters differ. -/
theorem flatMap_eq_flatMap_iff {α : Type} {g h : α → Text} {l : List α}
    (hfirst : ∀ a ∈ l, g a = h a ∨ ∃ c d, c ≠ d ∧ (g a).head? = some c ∧ (h a).head? = some d) :
    l.flatMap g = l.flatMap h ↔ ∀ a ∈ l, g a = h a := by
  constructor
  · intro heq
    induction l with
    | nil => simp
    | cons a l ih =>
        obtain ⟨ha, hl⟩ := List.forall_mem_cons.1 hfirst
        rw [List.flatMap_cons, List.flatMap_cons] at heq
        rcases ha with ha | ⟨c, d, hne, hc, hd⟩
        · rw [ha] at heq
          exact List.forall_mem_cons.2 ⟨ha, ih hl (List.append_cancel_left heq)⟩
        · obtain ⟨s, hs⟩ := List.head?_eq_some_iff.1 hc
          obtain ⟨t, ht⟩ := List.head?_eq_some_iff.1 hd
          rw [hs, ht] at heq
          exact absurd (List.cons.inj heq).1 hne
  · exact fun hall => List.flatMap_congr hall

theorem of_drop_eq_cons {α : Type} {l rest : List α} {n : Nat} {a : α}
    (h : l.drop n = a :: rest) : l[n]? = some a ∧ l.drop (n + 1) = rest := by
  rw [← List.head?_drop, ← List.tail_drop, h]
  exact ⟨rfl, rfl⟩

namespace Placeholder.Format

variable {f : Format}

/-! ### What stands for what -/

/-- The characters and placeholders of a template with its tags hidden, each with the text of the
template that it stands for. -/
def units (f : Format) : Nat → List Piece → List (Part × Text)
  | _, [] => []
  | n, .literal t :: ps => (f.parts t).map (fun p => (p, f.partText p)) ++ f.units n ps
  | n, .tag inner :: ps => (.hole (Text.ofNat n), (Piece.tag inner).text) :: f.units (n + 1) ps

theorem flatMap_snd_units (f : Format) (n : Nat) (ps : List Piece) :
    (f.units n ps).flatMap Prod.snd = ps.flatMap Piece.text := by
  induction ps generalizing n with
  | nil => rfl
  | cons p ps ih =>
      match p with
      | .literal t =>
          rw [units, List.flatMap_append, ih, List.flatMap_map, flatMap_partText_parts]
          rfl
      | .tag inner => rw [units, List.flatMap_cons, ih, List.flatMap_cons]

/-- The placeholders in the place of tags are read there, and nothing that they stand next to makes
other placeholders with them. -/
def Separates (f : Format) : Nat → List Piece → Prop
  | _, [] => True
  | n, .literal t :: ps => f.Clean t (f.hideTags n ps) ∧ f.Separates n ps
  | n, .tag _ :: ps => f.StopsBefore (f.make n) (f.hideTags (n + 1) ps) ∧ f.Separates (n + 1) ps

/-- A template with its tags hidden is read as its units, if its placeholders are separate. -/
theorem Separates.parts_hideTags {n : Nat} {ps : List Piece} (h : f.Separates n ps) :
    f.parts (f.hideTags n ps) = (f.units n ps).map Prod.fst := by
  induction ps generalizing n with
  | nil => rw [hideTags, parts_nil, units, List.map_nil]
  | cons p ps ih =>
      match p with
      | .literal t =>
          obtain ⟨hcut, hrest⟩ := h
          rw [hideTags, parts_append hcut, ih hrest, units, List.map_append, List.map_map,
            Function.comp_def, List.map_id']
      | .tag inner =>
          obtain ⟨hstop, hrest⟩ := h
          have hmatch := match?_eq_of_stopsBefore (isNumeral_ofNat n) hstop
          rw [hideTags, make_eq, parts_of_match? hmatch, ih hrest, units]
          rfl

theorem IsClear.separates (hf : f.IsClear) {ps : List Piece} (hps : ps.IsChain Piece.MeetAtTag)
    (n : Nat) : f.Separates n ps := by
  induction ps generalizing n with
  | nil => trivial
  | cons p ps ih =>
      obtain ⟨hnext, hchain⟩ := List.isChain_cons.1 hps
      match p with
      | .tag inner =>
          refine ⟨fun right _ hne hlonger => hne ?_, ih hchain (n + 1)⟩
          exact eq_nil_of_append hf.endsDigits (f.isPlaceholder_make n) hlonger
      | .literal t =>
          refine ⟨?_, ih hchain n⟩
          match ps with
          | [] => exact .nil_right t
          | .literal u :: ps => exact absurd rfl (hnext _ rfl t u rfl)
          | .tag inner :: ps => exact hf.clean_left (f.isPlaceholder_make n) t _

theorem of_mem_units {kept : List Text} {n : Nat} {ps : List Piece}
    (hkept : kept.drop n = Piece.tags ps) {p : Part} {t : Text} (h : (p, t) ∈ f.units n ps) :
    (t = f.partText p ∧ ∃ u, .literal u ∈ ps ∧ p ∈ f.parts u) ∨
      ∃ k, kept[k]? = some t ∧ p = .hole (Text.ofNat k) := by
  induction ps generalizing n with
  | nil => cases h
  | cons q ps ih =>
      match q with
      | .literal u =>
          rw [units, List.mem_append] at h
          rcases h with hu | hps
          · obtain ⟨p, hp, heq⟩ := List.mem_map.1 hu
            obtain ⟨rfl, rfl⟩ := Prod.mk.inj heq
            exact .inl ⟨rfl, u, List.mem_cons_self, hp⟩
          · rcases ih hkept hps with ⟨ht, u, hu, hp⟩ | htag
            · exact .inl ⟨ht, u, List.mem_cons_of_mem _ hu, hp⟩
            · exact .inr htag
      | .tag inner =>
          obtain ⟨hhead, htail⟩ := of_drop_eq_cons hkept
          rw [units, List.mem_cons] at h
          rcases h with heq | hps
          · obtain ⟨rfl, rfl⟩ := Prod.mk.inj heq
            exact .inr ⟨n, hhead, rfl⟩
          · rcases ih htail hps with ⟨ht, u, hu, hp⟩ | htag
            · exact .inl ⟨ht, u, List.mem_cons_of_mem _ hu, hp⟩
            · exact .inr htag

theorem of_mem_units_ofText {source : Text} {p : Part} {t : Text}
    (h : (p, t) ∈ f.units 0 (Piece.ofText source)) :
    (t = f.partText p ∧ ∃ u, .literal u ∈ Piece.ofText source ∧ p ∈ f.parts u) ∨
      ∃ k, (f.protectTags source).kept[k]? = some t ∧ p = .hole (Text.ofNat k) :=
  of_mem_units rfl h

private theorem mem_units_of_literal {n : Nat} {ps : List Piece} {t : Text} (h : .literal t ∈ ps)
    {p : Part} (hp : p ∈ f.parts t) : (p, f.partText p) ∈ f.units n ps := by
  induction ps generalizing n with
  | nil => cases h
  | cons q ps ih =>
      rcases List.mem_cons.1 h with rfl | htail
      · exact List.mem_append_left _ (List.mem_map_of_mem hp)
      · match q with
        | .literal u => exact List.mem_append_right _ (ih htail)
        | .tag inner => exact List.mem_cons_of_mem _ (ih htail)

/-! ### Restoring -/

theorem filled_ofNat {kept : List Text} {k : Nat} {t : Text} (h : kept[k]? = some t) :
    f.filled kept (.hole (Text.ofNat k)) = t := by
  rw [filled, Text.digitsValue_ofNat, h, Option.getD_some]

theorem filled_hole_eq_or_mem (kept : List Text) (ds : Text) :
    f.filled kept (.hole ds) = f.partText (.hole ds) ∨ f.filled kept (.hole ds) ∈ kept := by
  rw [filled]
  match h : kept[Text.digitsValue ds]? with
  | none => exact .inl rfl
  | some t => exact .inr (List.mem_of_getElem? h)

private theorem filled_hole_cases {kept : List Text} {a b : Char} (ha : f.opening.head? = some a)
    (hkept : ∀ t ∈ kept, t.head? = some b) (ds : Text) :
    kept.length ≤ Text.digitsValue ds ∧ f.filled kept (.hole ds) = f.partText (.hole ds) ∨
      Text.digitsValue ds < kept.length ∧ (f.filled kept (.hole ds)).head? = some b ∧
        (f.partText (.hole ds)).head? = some a := by
  rcases Nat.lt_or_ge (Text.digitsValue ds) kept.length with hlt | hge
  · refine .inr ⟨hlt, ?_, ?_⟩
    · rw [filled, List.getElem?_eq_getElem hlt, Option.getD_some]
      exact hkept _ (List.getElem_mem hlt)
    · obtain ⟨opening, hopening⟩ := List.head?_eq_some_iff.1 ha
      rw [partText, hopening]
      rfl
  · exact .inl ⟨hge, by rw [filled, List.getElem?_eq_none hge, Option.getD_none]⟩

/-- No literal text of the template has a placeholder with the number of a tag. -/
def AvoidsTags (f : Format) (source : Text) : Prop :=
  ∀ t, .literal t ∈ Piece.ofText source → ∀ ds, f.Holds t ds →
    (f.protectTags source).kept.length ≤ Text.digitsValue ds

variable {a : Char} {source : Text}

/-- If all numbers can be read, every unit is filled. -/
theorem IsClear.restore_protectTags (hf : f.IsClear)
    (hlong : ∀ ds, f.Holds source ds → ds.length ≤ maxDigits)
    (hcount : (f.protectTags source).kept.length ≤ 10 ^ maxDigits) :
    f.restore (f.protectTags source).kept (f.protectTags source).text =
      .ok ((f.units 0 (Piece.ofText source)).flatMap fun u =>
        f.filled (f.protectTags source).kept u.1) := by
  have hshort : ∀ ds, .hole ds ∈ (f.units 0 (Piece.ofText source)).map Prod.fst →
      ds.length ≤ maxDigits := by
    intro ds hds
    obtain ⟨⟨p, t⟩, hmem, rfl⟩ := List.mem_map.1 hds
    rcases of_mem_units_ofText hmem with ⟨-, u, hu, hp⟩ | ⟨k, hk, hp⟩
    · exact hlong ds ((hf.hole_mem_parts_iff.1 hp).mono (Piece.isInfix_of_literal_mem hu))
    · obtain rfl := Part.hole.inj hp
      have hlt := (List.getElem?_eq_some_iff.1 hk).1
      exact (Text.length_ofNat_le_iff (by decide)).2 (by omega)
  have hparts := (hf.separates (Piece.isChain_ofText source) 0).parts_hideTags
  rw [restore, protectTags, hparts, fillAll_eq_ok hshort,
    List.flatMap_map]

theorem IsClear.restore_protectTags_eq_iff (hf : f.IsClear) (ha : f.opening.head? = some a)
    (hbrace : '{' ≠ a) (hlong : ∀ ds, f.Holds source ds → ds.length ≤ maxDigits)
    (hcount : (f.protectTags source).kept.length ≤ 10 ^ maxDigits) :
    f.restore (f.protectTags source).kept (f.protectTags source).text = .ok source ↔
      f.AvoidsTags source := by
  have hsource : source = (f.units 0 (Piece.ofText source)).flatMap Prod.snd := by
    rw [flatMap_snd_units, Piece.flatMap_text_ofText]
  have hhole := filled_hole_cases ha fun t (ht : t ∈ (f.protectTags source).kept) =>
    Piece.head?_of_mem_tags ht
  -- A unit that is not filled with its own text is a placeholder filled with a tag, and these two
  -- have different first characters.
  have hfirst : ∀ u ∈ f.units 0 (Piece.ofText source),
      f.filled (f.protectTags source).kept u.1 = u.2 ∨
        ∃ c d, c ≠ d ∧ (f.filled (f.protectTags source).kept u.1).head? = some c ∧
          u.2.head? = some d := by
    intro ⟨p, t⟩ hmem
    rcases of_mem_units_ofText hmem with ⟨rfl, -⟩ | ⟨k, hk, rfl⟩
    · match p with
      | .char c => exact .inl rfl
      | .hole ds =>
          rcases hhole ds with ⟨-, heq⟩ | ⟨-, hb, ha⟩
          · exact .inl heq
          · exact .inr ⟨'{', a, hbrace, hb, ha⟩
    · exact .inl (filled_ofNat hk)
  rw [hf.restore_protectTags hlong hcount, Except.ok.injEq]
  conv_lhs => rhs; rw [hsource]
  rw [flatMap_eq_flatMap_iff hfirst]
  constructor
  · intro hall t ht ds hds
    have heq := hall _ (mem_units_of_literal ht (hf.hole_mem_parts_iff.2 hds))
    rcases hhole ds with ⟨hle, -⟩ | ⟨-, hb, ha⟩
    · exact hle
    · rw [heq, ha] at hb
      exact absurd (Option.some.inj hb).symm hbrace
  · intro havoids ⟨p, t⟩ hmem
    rcases of_mem_units_ofText hmem with ⟨rfl, u, hu, hp⟩ | ⟨k, hk, rfl⟩
    · match p with
      | .char c => rfl
      | .hole ds =>
          have hle := havoids u hu ds (hf.hole_mem_parts_iff.1 hp)
          rcases hhole ds with ⟨-, heq⟩ | ⟨hlt, -⟩
          · exact heq
          · omega
    · exact filled_ofNat hk

end Placeholder.Format

/-! ### Minification that keeps the text -/

namespace Compiler

open Placeholder.Format

private theorem minified_of_restore {c : Compiler} {text : Text}
    (hkeep : (c.answer text).result =
      .ok (.string (c.settings.tagPlaceholders.protectTags text).text))
    (hrestore : c.settings.tagPlaceholders.restore
      (c.settings.tagPlaceholders.protectTags text).kept
      (c.settings.tagPlaceholders.protectTags text).text = .ok text) :
    c.minified text = .ok text := by
  by_cases hwants : c.options.wantsMinify text = true
  · rw [minified_of_string hwants hkeep, hrestore]
  · rw [minified, if_neg hwants]

/-- Protected tags are put back, unless literal text has a placeholder with the number of a tag, and
then a minifier that keeps every text makes no difference. The bound on the number of tags is that
the placeholders of all of them can be read. -/
theorem protectTags_roundTrip {source : Text}
    (hlong : ∀ ds, ({} : Settings).tagPlaceholders.Holds source ds →
      ds.length ≤ Placeholder.maxDigits)
    (hcount : (({} : Settings).tagPlaceholders.protectTags source).kept.length
      ≤ 10 ^ Placeholder.maxDigits) :
    (({} : Settings).tagPlaceholders.restore
        (({} : Settings).tagPlaceholders.protectTags source).kept
        (({} : Settings).tagPlaceholders.protectTags source).text = .ok source ↔
      ({} : Settings).tagPlaceholders.AvoidsTags source) ∧
    (({} : Settings).tagPlaceholders.AvoidsTags source → Text.trim source = source →
      ∀ (options plain : Options) (minifier other : Minifier), plain.wantsMinify source = false →
        (∀ text object, (minifier.run text object).result = .ok (.string text)) →
        ∃ code, (({ options, minifier } : Compiler).compile source).result = .ok code ∧
          (({ options := plain, minifier := other } : Compiler).compile source).result
            = .ok code) := by
  have hiff : _ ↔ ({} : Settings).tagPlaceholders.AvoidsTags source :=
    isClear_tags.restore_protectTags_eq_iff rfl (by decide) hlong hcount
  refine ⟨hiff, ?_⟩
  intro havoids htrim options plain minifier other hplain hkeep
  obtain ⟨code, hcode⟩ := finished_succeeds (c := { options, minifier }) rfl source
  have hminified : ({ options, minifier } : Compiler).minified source = .ok source :=
    minified_of_restore (hkeep _ _) (hiff.2 havoids)
  have hsame : ({ options := plain, minifier := other } : Compiler).minified source = .ok source := by
    rw [minified, hplain]
    rfl
  refine ⟨code, ?_, ?_⟩
  · rw [result_compile_eq, htrim, hminified]
    exact hcode
  · rw [result_compile_eq, htrim, hsame]
    exact hcode

/-- The template has a placeholder of its own, whose number is that of no tag. -/
theorem protectTags_roundTrip_own_placeholder :
    ({} : Settings).tagPlaceholders.restore
        (({} : Settings).tagPlaceholders.protectTags
          "templatize-tag-7-ph\x7b\x7ba\x7d\x7d".toList).kept
        (({} : Settings).tagPlaceholders.protectTags
          "templatize-tag-7-ph\x7b\x7ba\x7d\x7d".toList).text
      = .ok "templatize-tag-7-ph\x7b\x7ba\x7d\x7d".toList ∧
    ∃ code, (({ options := { minify := true }, minifier := .keep } : Compiler).compile
        "templatize-tag-7-ph\x7b\x7ba\x7d\x7d".toList).result = .ok code ∧
      (({ minifier := .keep } : Compiler).compile
        "templatize-tag-7-ph\x7b\x7ba\x7d\x7d".toList).result = .ok code := by
  have hpieces : Piece.ofText "templatize-tag-7-ph\x7b\x7ba\x7d\x7d".toList
      = [.literal "templatize-tag-7-ph".toList, .tag ['a']] := by
    change Piece.ofText ("templatize-tag-7-ph".toList
      ++ (Piece.opening ++ ['a'] ++ Piece.closing ++ [])) = _
    rw [Piece.ofText_append (by decide) (by decide), Piece.ofText_tag (by decide), Piece.ofText]
    rfl
  have hkept : (({} : Settings).tagPlaceholders.protectTags
      "templatize-tag-7-ph\x7b\x7ba\x7d\x7d".toList).kept = ["\x7b\x7ba\x7d\x7d".toList] := by
    rw [Placeholder.Format.protectTags, hpieces]
    rfl
  have hlong : ∀ ds, ({} : Settings).tagPlaceholders.Holds
      "templatize-tag-7-ph\x7b\x7ba\x7d\x7d".toList ds → ds.length ≤ Placeholder.maxDigits := by
    intro ds hds
    have hle := hds.length_le
    exact hle.trans (by decide)
  have hcount : (({} : Settings).tagPlaceholders.protectTags
      "templatize-tag-7-ph\x7b\x7ba\x7d\x7d".toList).kept.length ≤ 10 ^ Placeholder.maxDigits := by
    rw [hkept]
    exact Nat.one_le_pow _ _ (by decide)
  have havoids : ({} : Settings).tagPlaceholders.AvoidsTags
      "templatize-tag-7-ph\x7b\x7ba\x7d\x7d".toList := by
    have hseven : IsNumeral ['7'] := ⟨by decide, by decide⟩
    have hparts : ({} : Settings).tagPlaceholders.parts "templatize-tag-7-ph".toList
        = [.hole ['7']] :=
      parts_partText isClear_tags.endsDigits hseven
    intro t ht ds hds
    rw [hpieces, List.mem_pair] at ht
    rcases ht with heq | heq
    · obtain rfl := Piece.literal.inj heq
      rw [← isClear_tags.hole_mem_parts_iff, hparts, List.mem_singleton] at hds
      obtain rfl := Part.hole.inj hds
      rw [hkept]
      decide
    · cases heq
  have hroundTrip := protectTags_roundTrip hlong hcount
  exact ⟨hroundTrip.1.2 havoids,
    hroundTrip.2 havoids (by decide) { minify := true } {} .keep .keep rfl fun _ _ => rfl⟩

end Compiler

end Stencil
