import Stencil.Proofs.Protection

/-!
# Settings that keep placeholders apart

A placeholder that is put in the place of a tag stands next to literal text, and the two together
can be read as something else: as a placeholder that begins in the text, or as one with more
digits. The first needs a placeholder whose end is the beginning of another one, the second a
closing of digits. Where it happens, a tag comes too early or a brace is missing, or digits behind
a tag are lost, so the template does not come back. Admitted settings do not exclude it:
`Unambiguous` does, and it is the weakest condition that excludes it for every template.
-/

namespace Stencil

namespace Text

theorem takeWhile_eq_nil_of_head? {s : Text} {c : Char} (h : s.head? = some c)
    (hc : isDigit c = false) : s.takeWhile isDigit = [] := by
  obtain ⟨r, rfl⟩ := List.head?_eq_some_iff.1 h
  exact List.takeWhile_cons_of_neg (by simp [hc])

theorem takeWhile_append_congr {p : Char → Bool} (t : Text) {x y : Text}
    (h : x.takeWhile p = y.takeWhile p) : (t ++ x).takeWhile p = (t ++ y).takeWhile p := by
  induction t with
  | nil => exact h
  | cons c t ih => simp [List.takeWhile_cons, ih]

/-- A text that another text can be moved past, if that one is made of some characters only, is
made of them too. -/
theorem of_append_comm {p : Char → Bool} {m x right : Text} (h : x ++ right = m ++ x) (hm : m ≠ [])
    (hp : ∀ c ∈ m, p c = true) : ∀ c ∈ x, p c = true := by
  induction hn : x.length using Nat.strongRecOn generalizing x with
  | _ n ih =>
      subst hn
      rcases List.append_eq_append_iff.1 h with ⟨within, rfl, -⟩ | ⟨beyond, rfl, hbeyond⟩
      · exact fun c hc => hp c (List.mem_append_left _ hc)
      · have hpos := List.length_pos_iff.2 hm
        intro c hc
        rcases List.mem_append.1 hc with hfront | hbehind
        · exact hp c hfront
        · exact ih beyond.length (by simp; omega) hbeyond.symm rfl c hbehind

end Text

namespace Piece

theorem ofText_eq_literal {t : Text} (hne : t ≠ []) (hbrace : '{' ∉ t) : ofText t = [literal t] := by
  rw [ofText_of_not_hasTag (not_hasTag_of_not_mem hbrace), if_neg hne]

private theorem ofText_replicate_append {inner : Text} (h : '}' ∉ inner) (n : Nat) (r : Text) :
    ofText ((List.replicate n (tag inner).text).flatten ++ r) =
      List.replicate n (tag inner) ++ ofText r := by
  induction n with
  | zero => rfl
  | succ n ih =>
      rw [List.replicate_succ, List.flatten_cons, List.append_assoc, text, ofText_tag h, ← text, ih]
      rfl

end Piece

namespace Placeholder.Format

variable {f : Format}

/-! ### Placeholders that begin or end in one another -/

/-- Inside a placeholder there is room for another one at its front only: the hyphen before the
digits would stand among digits. -/
theorem IsName.eq_nil_of_within (hf : f.IsName) {v front back : Text} (hv : f.IsPlaceholder v)
    (h : f.IsPlaceholder (front ++ (v ++ back))) : front = [] := by
  obtain ⟨ds, -, rfl⟩ := hv
  obtain ⟨es, ⟨-, hes⟩, heq⟩ := h
  obtain ⟨r, hr⟩ := hf.hyphen
  by_contra hne
  have hpos := List.length_pos_iff.2 hne
  have hlength := congrArg List.length heq
  simp only [partText, hr, List.length_append, List.length_singleton] at hlength
  have hhyphen : (front ++ (f.partText (.hole ds) ++ back))[front.length + r.length]? = some '-' := by
    rw [partText, hr, List.getElem?_append_right (by omega)]
    simp
  have hdigit : (f.partText (.hole es))[front.length + r.length]? = es[front.length - 1]? := by
    rw [partText, hr, List.append_assoc, List.getElem?_append_right (by simp; omega),
      List.getElem?_append_left (by simp; omega)]
    congr 1
    simp
    omega
  rw [heq, hdigit] at hhyphen
  have hmem := hes _ (List.mem_of_getElem? hhyphen)
  revert hmem
  decide

/-- If a placeholder is the front of another one, the closing has digits only, and so has what
makes the difference. -/
theorem isDigit_of_longer {ds right : Text} (hne : right ≠ [])
    (h : f.IsPlaceholder (f.partText (.hole ds) ++ right)) :
    (∀ c ∈ f.closing, Text.isDigit c = true) ∧ ∀ c ∈ right, Text.isDigit c = true := by
  obtain ⟨es, ⟨-, hes⟩, heq⟩ := h
  have hdigits : ds ++ (f.closing ++ right) = es ++ f.closing := by
    simpa [partText] using heq
  have hlength := congrArg List.length hdigits
  have hpos := List.length_pos_iff.2 hne
  simp only [List.length_append] at hlength
  rcases List.append_eq_append_iff.1 hdigits with ⟨more, rfl, hmore⟩ | ⟨less, rfl, -⟩
  · have hmore_digits : ∀ c ∈ more, Text.isDigit c = true :=
      fun c hc => hes c (List.mem_append_right _ hc)
    have hmore_ne : more ≠ [] := by
      rintro rfl
      rw [List.append_nil] at hlength
      omega
    have hclosing := Text.of_append_comm hmore hmore_ne hmore_digits
    refine ⟨hclosing, fun c hc => ?_⟩
    have hmem : c ∈ more ++ f.closing := hmore ▸ List.mem_append_right _ hc
    rcases List.mem_append.1 hmem with hc | hc
    · exact hmore_digits c hc
    · exact hclosing c hc
  · rw [List.length_append] at hlength
    omega

private theorem exists_of_not_stopsBefore {ds rest : Text}
    (h : ¬f.StopsBefore (f.partText (.hole ds)) rest) :
    ∃ es more beyond, f.match? (f.partText (.hole ds) ++ rest) = some (es, beyond) ∧
      rest = more ++ beyond ∧ more ≠ [] ∧ ∀ c ∈ more, Text.isDigit c = true := by
  simp only [StopsBefore, not_forall, not_not] at h
  obtain ⟨right, hright, hne, es, hes, heq⟩ := h
  have hfront : f.partText (.hole es) <+: f.partText (.hole ds) ++ rest := by
    rwa [← heq, List.prefix_append_right_inj]
  obtain ⟨es', beyond, hmatch, hlength⟩ := exists_match? hes hfront
  obtain ⟨hs, hes'⟩ := eq_of_match? hmatch
  have hsame : f.partText (.hole es') ++ beyond = f.partText (.hole ds) ++ rest := by
    rw [hs]
    simp [partText]
  have hlonger : (f.partText (.hole ds)).length < (f.partText (.hole es')).length := by
    have hpos := List.length_pos_iff.2 hne
    have hlengths := congrArg List.length heq
    simp only [partText, List.length_append] at hlengths ⊢
    omega
  obtain ⟨more, hmore⟩ := List.prefix_of_prefix_length_le (List.prefix_append _ rest)
    ⟨beyond, hsame⟩ hlonger.le
  have hmore_ne : more ≠ [] := by
    rintro rfl
    rw [← hmore, List.append_nil] at hlonger
    exact absurd hlonger (lt_irrefl _)
  rw [← hmore, List.append_assoc, List.append_cancel_left_eq] at hsame
  exact ⟨es', more, beyond, hmatch, hsame.symm, hmore_ne,
    (isDigit_of_longer hmore_ne ⟨es', hes', hmore⟩).2⟩

/-! ### Digits at the front -/

private theorem takeWhile_flatMap_filled (hf : f.IsName) {kept : List Text}
    (hkept : ∀ t ∈ kept, t.head? = some '{') (s : Text) :
    ((f.parts s).flatMap (f.filled kept)).takeWhile Text.isDigit = s.takeWhile Text.isDigit := by
  obtain ⟨a, opening, hopening, ha⟩ := hf.begins
  have hletter := Settings.not_isDigit_of_isSmallLetter ha
  fun_induction parts f s with
  | case1 s ds rest hmatch ih =>
      obtain ⟨rfl, -⟩ := eq_of_match? hmatch
      have hhole (w : Text) {c : Char} (hc : (f.filled kept (.hole ds)).head? = some c) :
          (f.filled kept (.hole ds) ++ w).head? = some c := by
        obtain ⟨u, hu⟩ := List.head?_eq_some_iff.1 hc
        rw [hu]
        rfl
      rw [Text.takeWhile_eq_nil_of_head? (s := f.opening ++ _) (by rw [hopening]; rfl) hletter,
        List.flatMap_cons]
      rcases filled_hole_eq_or_mem kept ds with heq | hmem
      · refine Text.takeWhile_eq_nil_of_head? (hhole _ ?_) hletter
        rw [heq, partText, hopening]
        rfl
      · exact Text.takeWhile_eq_nil_of_head? (hhole _ (hkept _ hmem)) (by decide)
  | case2 => rfl
  | case3 c r hmatch ih => exact Text.takeWhile_append_congr [c] ih

private theorem takeWhile_hideTags (hf : f.IsName) (n : Nat) (ps : List Piece) :
    (f.hideTags n ps).takeWhile Text.isDigit = (ps.flatMap Piece.text).takeWhile Text.isDigit := by
  obtain ⟨a, opening, hopening, ha⟩ := hf.begins
  induction ps with
  | nil => rfl
  | cons p ps ih =>
      match p with
      | .literal t => exact Text.takeWhile_append_congr t ih
      | .tag inner =>
          rw [Text.takeWhile_eq_nil_of_head? (s := f.hideTags n (.tag inner :: ps)) (c := a)
              (by rw [hideTags, make, hopening]; rfl) (Settings.not_isDigit_of_isSmallLetter ha),
            Text.takeWhile_eq_nil_of_head? (s := List.flatMap Piece.text _) (c := '{') rfl (by decide)]

/-! ### What restoring shows -/

theorem IsName.not_mem_brace (hf : f.IsName) {v : Text} (hv : f.IsPlaceholder v) : '{' ∉ v :=
  IsForeign.not_mem (hf.isForeign (by decide) (by decide)) hv

theorem IsName.head?_append_ne (hf : f.IsName) {v : Text} (hv : f.IsPlaceholder v) (x : Text) :
    (v ++ x).head? ≠ some '{' := by
  rw [List.head?_append_of_ne_nil _ hv.ne_nil]
  exact fun h => hf.not_mem_brace hv (List.mem_of_head? h)

section Restored

variable (hf : f.IsName) {kept : List Text} (hkept : ∀ t ∈ kept, Piece.IsTag t)
include hf hkept

/-- If literal text comes back with a tag behind it, no placeholder stands across its end. -/
theorem clean_of_flatMap_filled {t rest z : Text} (hplain : ∀ ds, ¬f.Holds t ds)
    (h : (f.parts (t ++ rest)).flatMap (f.filled kept) = t ++ '{' :: z) : f.Clean t rest := by
  induction t with
  | nil => exact fun left right hleft _ hne => absurd (List.suffix_nil.1 hleft) hne
  | cons c t ih =>
      cases hmatch : f.match? (c :: t ++ rest) with
      | some found =>
          obtain ⟨ds, beyond⟩ := found
          obtain ⟨hs, hds⟩ := eq_of_match? hmatch
          have hfront : c :: t ++ rest = f.partText (.hole ds) ++ beyond := by
            rw [hs]
            simp [partText]
          rw [parts_of_match? hmatch, List.flatMap_cons] at h
          rcases filled_hole_eq_or_mem kept ds with heq | hmem
          · -- The placeholder stays, and a character of it is where the tag should be.
            rw [heq] at h
            rcases List.append_eq_append_iff.1 hfront with ⟨across, hacross, -⟩ | ⟨after, hafter, -⟩
            · rw [hacross, List.append_assoc, List.append_cancel_left_eq] at h
              cases across with
              | nil =>
                  rw [List.append_nil] at hacross
                  exact absurd ⟨hds, hacross ▸ List.infix_rfl⟩ (hplain ds)
              | cons d across =>
                  obtain ⟨rfl, -⟩ := List.cons.inj h
                  exact absurd (by simp [hacross]) (hf.not_mem_brace ⟨ds, hds, rfl⟩)
            · exact absurd ⟨hds, hafter ▸ (List.prefix_append _ after).isInfix⟩ (hplain ds)
          · -- A tag comes where the literal text should be.
            have hfirst := congrArg List.head? h
            rw [List.head?_append, (hkept _ hmem).head?] at hfirst
            refine absurd ?_ (hf.head?_append_ne ⟨ds, hds, rfl⟩ beyond)
            rw [← hfront]
            exact hfirst.symm
      | none =>
          rw [List.cons_append] at hmatch
          rw [List.cons_append, parts_cons hmatch, List.flatMap_cons] at h
          have hrest := ih (fun ds hds => hplain ds (hds.mono (List.suffix_cons c t).isInfix))
            (List.cons.inj h).2
          intro left right hleft hright hl hr hw
          rcases List.suffix_cons_iff.1 hleft with rfl | hleft
          · refine match?_eq_none_iff.1 hmatch _ hw ?_
            rw [← List.cons_append]
            exact (List.prefix_append_right_inj _).2 hright
          · exact hrest left right hleft hright hl hr hw

private theorem stopsBefore_of_flatMap_filled {ds rest w source : Text} (hw : Piece.IsTag w)
    (hdigits : rest.takeWhile Text.isDigit = source.takeWhile Text.isDigit)
    (h : (f.parts (f.partText (.hole ds) ++ rest)).flatMap (f.filled kept) = w ++ source) :
    f.StopsBefore (f.partText (.hole ds)) rest := by
  by_contra hnot
  obtain ⟨es, more, beyond, hmatch, rfl, hne, hmore⟩ := exists_of_not_stopsBefore hnot
  rw [parts_of_match? hmatch, List.flatMap_cons] at h
  rcases filled_hole_eq_or_mem kept es with heq | hmem
  · -- The placeholder stays, and the tag begins with a brace.
    refine absurd ?_ (hf.head?_append_ne ⟨es, (eq_of_match? hmatch).2, rfl⟩
      ((f.parts beyond).flatMap (f.filled kept)))
    rw [← heq, h, List.head?_append, hw.head?]
    rfl
  · -- Another tag or the same one comes, but the digits behind it are fewer.
    have htags := congrArg (fun s => Piece.tags (Piece.ofText s)) h
    simp only [(hkept _ hmem).tags_ofText, hw.tags_ofText] at htags
    rw [(List.cons.inj htags).1, List.append_cancel_left_eq] at h
    have hrest := takeWhile_flatMap_filled hf (fun t ht => (hkept t ht).head?) beyond
    rw [h, ← hdigits, List.takeWhile_append_of_pos hmore] at hrest
    exact hne (List.append_left_eq_self.1 hrest)

theorem flatMap_filled_hideTags_iff {n : Nat} {ps : List Piece}
    (hdrop : kept.drop n = Piece.tags ps) (hps : ps.IsChain Piece.MeetAtTag)
    (hplain : ∀ t, .literal t ∈ ps → ∀ ds, ¬f.Holds t ds) :
    (f.parts (f.hideTags n ps)).flatMap (f.filled kept) = ps.flatMap Piece.text ↔
      f.Separates n ps := by
  constructor
  · intro h
    induction ps generalizing n with
    | nil => trivial
    | cons p ps ih =>
        obtain ⟨hnext, hchain⟩ := List.isChain_cons.1 hps
        have ih {n : Nat} (hdrop : kept.drop n = Piece.tags ps) := ih hdrop hchain
          fun t ht => hplain t (List.mem_cons_of_mem _ ht)
        cases p with
        | literal t =>
            have ht := hplain t List.mem_cons_self
            have hcut : f.Clean t (f.hideTags n ps) := by
              obtain _ | ⟨u | inner, ps⟩ := ps
              · exact .nil_right t
              · exact absurd rfl (hnext _ rfl t u rfl)
              · exact clean_of_flatMap_filled hf hkept ht h
            rw [hideTags, parts_append hcut, parts_eq_map_char_of_not_holds ht, List.flatMap_append,
              flatMap_filled_map_char, List.flatMap_cons] at h
            exact ⟨hcut, ih hdrop (List.append_cancel_left h)⟩
        | tag inner =>
            obtain ⟨hhead, htail⟩ := of_drop_eq_cons hdrop
            rw [hideTags, List.flatMap_cons] at h
            have hstop := stopsBefore_of_flatMap_filled hf hkept
              (hkept _ (List.mem_of_getElem? hhead)) (takeWhile_hideTags hf (n + 1) ps) h
            have hmatch := match?_eq_of_stopsBefore (isNumeral_ofNat n) hstop
            rw [make_eq, parts_of_match? hmatch, List.flatMap_cons, filled_ofNat hhead] at h
            exact ⟨hstop, ih htail (List.append_cancel_left h)⟩
  · intro h
    rw [h.parts_hideTags, ← f.flatMap_snd_units n ps, List.flatMap_map]
    refine List.flatMap_congr fun unit hmem => ?_
    obtain ⟨p, t⟩ := unit
    rcases of_mem_units hdrop hmem with ⟨rfl, u, hu, hp⟩ | ⟨k, hk, rfl⟩
    · rw [parts_eq_map_char_of_not_holds (hplain u hu)] at hp
      obtain ⟨c, -, rfl⟩ := List.mem_map.1 hp
      rfl
    · exact filled_ofNat hk

end Restored

/-- No literal text of the template holds a placeholder. -/
def Lacks (f : Format) (source : Text) : Prop :=
  ∀ t, .literal t ∈ Piece.ofText source → ∀ ds, ¬f.Holds t ds

theorem restore_protectTags_eq_iff_separates (hf : f.IsName) {source : Text} (hplain : f.Lacks source)
    (hcount : (f.protectTags source).kept.length ≤ 10 ^ maxDigits) :
    f.restore (f.protectTags source).kept (f.protectTags source).text = .ok source ↔
      f.Separates 0 (Piece.ofText source) := by
  have hdrop : (f.protectTags source).kept.drop 0 = Piece.tags (Piece.ofText source) := rfl
  have hiff := flatMap_filled_hideTags_iff hf
    (fun t (ht : t ∈ (f.protectTags source).kept) => Piece.isTag_of_mem_tags ht) hdrop
    (Piece.isChain_ofText source) hplain
  rw [Piece.flatMap_text_ofText] at hiff
  constructor
  · exact fun h => hiff.1 (eq_of_fillAll_eq_ok h).symm
  · intro h
    rw [restore, fillAll_eq_ok, Except.ok.injEq]
    · exact hiff.2 h
    · intro ds hds
      rw [protectTags, h.parts_hideTags] at hds
      obtain ⟨⟨p, t⟩, hmem, rfl⟩ := List.mem_map.1 hds
      rcases of_mem_units_ofText hmem with ⟨-, u, hu, hp⟩ | ⟨k, hk, hp⟩
      · rw [parts_eq_map_char_of_not_holds (hplain u hu)] at hp
        simp at hp
      · obtain rfl := Part.hole.inj hp
        have hlt := (List.getElem?_eq_some_iff.1 hk).1
        exact (Text.length_ofNat_le_iff (by decide)).2 (by omega)

/-! ### Neighbours -/

/-- The pieces of a template, each with the number of tags before it. -/
def numbered : Nat → List Piece → List (Nat × Piece)
  | _, [] => []
  | n, .literal t :: ps => (n, .literal t) :: numbered n ps
  | n, .tag inner :: ps => (n, .tag inner) :: numbered (n + 1) ps

/-- Literal text and the placeholder that comes to stand next to it make no other placeholder. -/
def Apart (f : Format) : Nat × Piece → Nat × Piece → Prop
  | (_, .literal t), (n, .tag _) => f.Clean t (f.make n)
  | (n, .tag _), (_, .literal t) => f.StopsBefore (f.make n) t
  | _, _ => True

theorem IsName.clean_append_iff (hf : f.IsName) {v : Text} (hv : f.IsPlaceholder v) (x y : Text) :
    f.Clean x (v ++ y) ↔ f.Clean x v := by
  constructor
  · exact fun h left right hleft hright => h left right hleft (hright.trans (List.prefix_append v y))
  · intro h left right hleft hright hl hr hw
    rcases Text.prefix_append_cases hright with hwithin | ⟨beyond, -, -, rfl⟩
    · exact h left right hleft hwithin hl hr hw
    · exact hl (hf.eq_nil_of_within hv hw)

theorem stopsBefore_append_iff {n : Nat} {t rest : Text}
    (hrest : ∀ c ∈ rest.head?, Text.isDigit c = false) :
    f.StopsBefore (f.make n) (t ++ rest) ↔ f.StopsBefore (f.make n) t := by
  constructor
  · exact fun h right hright => h right (hright.trans (List.prefix_append t rest))
  · intro h right hright hne hlonger
    rcases Text.prefix_append_cases hright with hwithin | ⟨beyond, hbeyond, hfront, rfl⟩
    · exact h right hwithin hne hlonger
    · obtain ⟨c, beyond, rfl⟩ := List.exists_cons_of_ne_nil hbeyond
      obtain ⟨after, rfl⟩ := hfront
      have hdigit := (isDigit_of_longer hne hlonger).2 c (by simp)
      rw [hrest c rfl] at hdigit
      cases hdigit

theorem IsName.not_isDigit_make (hf : f.IsName) (n : Nat) (x : Text) :
    ∀ c ∈ (f.make n ++ x).head?, Text.isDigit c = false := by
  obtain ⟨a, opening, hopening, ha⟩ := hf.begins
  intro c hc
  rw [make, hopening] at hc
  obtain rfl := Option.some.inj hc
  exact Settings.not_isDigit_of_isSmallLetter ha

/-- Only neighbours matter for whether the placeholders are separate. -/
theorem IsName.separates_iff (hf : f.IsName) {ps : List Piece} (hps : ps.IsChain Piece.MeetAtTag)
    (n : Nat) : f.Separates n ps ↔ (numbered n ps).IsChain f.Apart := by
  induction ps generalizing n with
  | nil => exact ⟨fun _ => List.isChain_nil, fun _ => trivial⟩
  | cons p ps ih =>
      obtain ⟨hnext, hchain⟩ := List.isChain_cons.1 hps
      match p, ps with
      | .literal t, [] =>
          exact ⟨fun _ => List.isChain_singleton _, fun _ => ⟨.nil_right t, trivial⟩⟩
      | .tag inner, [] => exact ⟨fun _ => List.isChain_singleton _, fun _ => ⟨.nil _, trivial⟩⟩
      | .literal t, .literal u :: ps => exact absurd rfl (hnext _ rfl t u rfl)
      | .literal t, .tag inner :: ps =>
          rw [Separates, numbered, numbered, List.isChain_cons_cons]
          exact and_congr (hf.clean_append_iff (f.isPlaceholder_make n) t _) (ih hchain n)
      | .tag inner, .tag next :: ps =>
          have htags := stopsBefore_append_iff (f := f) (n := n) (t := []) (hf.not_isDigit_make (n + 1)
            (f.hideTags (n + 1 + 1) ps))
          rw [Separates, numbered, numbered, List.isChain_cons_cons]
          exact and_congr ⟨fun _ => trivial, fun _ => htags.2 (.nil _)⟩ (ih hchain (n + 1))
      | .tag inner, .literal t :: ps =>
          rw [Separates, numbered, numbered, List.isChain_cons_cons]
          refine and_congr (stopsBefore_append_iff ?_) (ih hchain (n + 1))
          match ps with
          | [] => simp [hideTags]
          | .literal u :: ps => exact absurd rfl ((List.isChain_cons.1 hchain).1 _ rfl t u rfl)
          | .tag next :: ps => exact hf.not_isDigit_make (n + 1) _

/-! ### Settings under which every template is restored -/

/-- Whatever stands next to it, no placeholder is read differently from how it was made. -/
structure Unambiguous (f : Format) : Prop where
  closing : ∃ c ∈ f.closing, Text.isDigit c = false
  apart : ∀ n : Nat, n < 10 ^ maxDigits → ∀ front tail, f.IsPlaceholder (front ++ tail) → front ≠ [] →
    tail ≠ [] → ¬tail <+: f.make n

/-- Placeholders whose digits end in one place, and that do not overlap, are read as they were made. -/
theorem IsClear.unambiguous (hf : f.IsClear) : f.Unambiguous := by
  obtain ⟨c, r, hclosing, hc⟩ := hf.endsDigits
  refine ⟨⟨c, by simp [hclosing], hc⟩, fun n _ front tail hw hfront htail => ?_⟩
  exact (hf.apart hw (f.isPlaceholder_make n) rfl hfront htail).1

private theorem Unambiguous.isChain_apart (hf : f.Unambiguous) {n : Nat} {ps : List Piece}
    (hcount : n + (Piece.tags ps).length ≤ 10 ^ maxDigits) : (numbered n ps).IsChain f.Apart := by
  induction ps generalizing n with
  | nil => exact List.isChain_nil
  | cons p ps ih =>
      match p, ps with
      | .literal t, [] | .tag inner, [] => exact List.isChain_singleton _
      | .literal t, .literal u :: ps => exact List.isChain_cons_cons.2 ⟨trivial, ih hcount⟩
      | .literal t, .tag inner :: ps =>
          refine List.isChain_cons_cons.2 ⟨?_, ih hcount⟩
          have hn : n < 10 ^ maxDigits := by
            have hlength := Piece.length_tags_tag inner ps
            change n + (Piece.tags (.tag inner :: ps)).length ≤ _ at hcount
            omega
          exact fun left right _ hright hl hr hw => hf.apart n hn left right hw hl hr hright
      | .tag inner, .literal t :: ps =>
          rw [Piece.length_tags_tag] at hcount
          refine List.isChain_cons_cons.2 ⟨?_, ih (by omega)⟩
          intro right _ hne hlonger
          obtain ⟨c, hc, hdigit⟩ := hf.closing
          rw [(isDigit_of_longer hne hlonger).1 c hc] at hdigit
          cases hdigit
      | .tag inner, .tag next :: ps =>
          rw [Piece.length_tags_tag] at hcount
          exact List.isChain_cons_cons.2 ⟨trivial, ih (by omega)⟩

theorem numbered_append (n : Nat) (ps qs : List Piece) :
    numbered n (ps ++ qs) = numbered n ps ++ numbered (n + (Piece.tags ps).length) qs := by
  induction ps generalizing n with
  | nil => rfl
  | cons p ps ih =>
      match p with
      | .literal t => exact congrArg _ (ih n)
      | .tag inner =>
          rw [List.cons_append, numbered, ih, numbered, Piece.length_tags_tag, List.cons_append,
            Nat.add_right_comm, Nat.add_assoc]

private theorem length_tags_replicate (inner : Text) (n : Nat) (ps : List Piece) :
    (Piece.tags (List.replicate n (.tag inner) ++ ps)).length = n + (Piece.tags ps).length := by
  induction n with
  | zero => simp
  | succ n ih =>
      rw [List.replicate_succ, List.cons_append, Piece.length_tags_tag, ih]
      omega

/-- A closing of digits makes a longer number of the placeholder that it stands behind. -/
theorem exists_not_apart_of_closing (hf : f.IsName)
    (hclosing : ∀ c ∈ f.closing, Text.isDigit c = true) :
    ∃ source, f.Lacks source ∧ (f.protectTags source).kept.length = 1 ∧
      ¬(numbered 0 (Piece.ofText source)).IsChain f.Apart := by
  obtain ⟨a, opening, hopening, ha⟩ := hf.begins
  have hbrace : '{' ∉ f.closing := by
    intro h
    have hdigit := hclosing _ h
    revert hdigit
    decide
  have hpieces : Piece.ofText ((Piece.tag ['a']).text ++ f.closing) =
      [.tag ['a'], .literal f.closing] := by
    rw [Piece.text, Piece.ofText_tag (by decide), Piece.ofText_eq_literal hf.closing_ne_nil hbrace]
  refine ⟨_, ?_, by rw [protectTags, hpieces]; rfl, ?_⟩
  · intro t ht ds hds
    obtain rfl : t = f.closing := by
      rw [hpieces] at ht
      simpa using ht
    -- A placeholder begins with a letter.
    have hletter := hclosing a (hds.2.subset (by simp [partText, hopening]))
    rw [Settings.not_isDigit_of_isSmallLetter ha] at hletter
    cases hletter
  · rw [hpieces]
    intro hchain
    refine (List.isChain_cons_cons.1 hchain).1 f.closing (List.prefix_refl _) hf.closing_ne_nil ?_
    have hnumeral : IsNumeral (Text.ofNat 0 ++ f.closing) := by
      refine ⟨by simp [Text.ofNat_ne_nil], fun c hc => ?_⟩
      rcases List.mem_append.1 hc with hc | hc
      · exact Text.isDigit_of_mem_ofNat hc
      · exact hclosing c hc
    refine ⟨_, hnumeral, ?_⟩
    change f.opening ++ Text.ofNat 0 ++ f.closing ++ f.closing = _
    simp [partText]

/-- A placeholder whose end is the beginning of another one comes to stand across it. -/
theorem exists_not_apart_of_overlap (hf : f.IsName)
    (hclosing : ∃ c ∈ f.closing, Text.isDigit c = false) {n : Nat} {front tail : Text}
    (hw : f.IsPlaceholder (front ++ tail)) (hfront : front ≠ []) (htail : tail ≠ [])
    (hbegins : tail <+: f.make n) :
    ∃ source, f.Lacks source ∧ (f.protectTags source).kept.length = n + 1 ∧
      ¬(numbered 0 (Piece.ofText source)).IsChain f.Apart := by
  have hbrace : '{' ∉ front := fun h => hf.not_mem_brace hw (List.mem_append_left _ h)
  have htag : Piece.ofText (Piece.tag ['a']).text = [.tag ['a']] := by
    have hcut := Piece.ofText_tag (show '}' ∉ ['a'] by decide) []
    rwa [List.append_nil, Piece.ofText] at hcut
  have hpieces : Piece.ofText ((List.replicate n (Piece.tag ['a']).text).flatten ++
      (front ++ (Piece.tag ['a']).text)) =
        List.replicate n (.tag ['a']) ++ [.literal front, .tag ['a']] := by
    rw [Piece.ofText_replicate_append (by decide), Piece.ofText_append hfront hbrace, htag]
    change _ ++ [Piece.literal (front ++ []), _] = _
    rw [List.append_nil]
  refine ⟨_, ?_, by rw [protectTags, hpieces, length_tags_replicate]; rfl, ?_⟩
  · intro t ht ds hds
    obtain rfl : t = front := by
      rw [hpieces] at ht
      simpa using ht
    -- A placeholder in this text would be the front of the one that is made.
    obtain ⟨before, after, hwithin⟩ := hds.2
    have hlonger : f.IsPlaceholder (before ++ (f.partText (.hole ds) ++ (after ++ tail))) := by
      rw [← hwithin] at hw
      simpa using hw
    obtain rfl := hf.eq_nil_of_within ⟨ds, hds.1, rfl⟩ hlonger
    obtain ⟨c, hc, hdigit⟩ := hclosing
    rw [(isDigit_of_longer (by simp [htail]) hlonger).1 c hc] at hdigit
    cases hdigit
  · rw [hpieces, numbered_append]
    intro hchain
    have hlength : (Piece.tags (List.replicate n (Piece.tag ['a']))).length = n := by
      have h := length_tags_replicate ['a'] n []
      rwa [List.append_nil] at h
    have hlast := (List.isChain_append.1 hchain).2.1
    rw [hlength, Nat.zero_add] at hlast
    exact (List.isChain_cons_cons.1 hlast).1 front tail List.suffix_rfl hbegins hfront htail hw

end Placeholder.Format

namespace Settings

open Placeholder.Format

variable {s : Settings}

/-- Protected tags are put back in a template whose literal text has no placeholder, if and only if
the placeholders that are put next to literal text make no other ones with it. No literal text
makes other ones if the settings are unambiguous, and under any other settings some does. -/
theorem restore_protectTags_iff (hs : s.Admitted) :
    (∀ source, s.tagPlaceholders.Lacks source →
      (s.tagPlaceholders.protectTags source).kept.length ≤ 10 ^ Placeholder.maxDigits →
      (s.tagPlaceholders.restore (s.tagPlaceholders.protectTags source).kept
          (s.tagPlaceholders.protectTags source).text = .ok source ↔
        (numbered 0 (Piece.ofText source)).IsChain s.tagPlaceholders.Apart)) ∧
    ((∀ source, s.tagPlaceholders.Lacks source →
      (s.tagPlaceholders.protectTags source).kept.length ≤ 10 ^ Placeholder.maxDigits →
      s.tagPlaceholders.restore (s.tagPlaceholders.protectTags source).kept
        (s.tagPlaceholders.protectTags source).text = .ok source) ↔
      s.tagPlaceholders.Unambiguous) := by
  have hf := hs.isName_tags
  have hiff (source : Text) (hplain : s.tagPlaceholders.Lacks source) hcount :=
    (restore_protectTags_eq_iff_separates hf hplain hcount).trans
      (hf.separates_iff (Piece.isChain_ofText source) 0)
  refine ⟨hiff, fun hall => ?_, fun hunambiguous source hplain hcount => ?_⟩
  · have hclosing : ∃ c ∈ s.tagPlaceholders.closing, Text.isDigit c = false := by
      by_contra hdigits
      obtain ⟨source, hplain, hcount, hnot⟩ :=
        exists_not_apart_of_closing hf (by simpa using hdigits)
      have hbound := hcount.trans_le (Nat.one_le_pow Placeholder.maxDigits 10 (by decide))
      exact hnot ((hiff source hplain hbound).1 (hall source hplain hbound))
    refine ⟨hclosing, fun n hn front tail hw hfront htail hbegins => ?_⟩
    obtain ⟨source, hplain, hcount, hnot⟩ :=
      exists_not_apart_of_overlap hf hclosing hw hfront htail hbegins
    have hbound := hcount.trans_le (Nat.succ_le_of_lt hn)
    exact hnot ((hiff source hplain hbound).1 (hall source hplain hbound))
  · refine (hiff source hplain hcount).2 (hunambiguous.isChain_apart ?_)
    rw [Nat.zero_add]
    exact hcount

private theorem not_holds_zero {f : Placeholder.Format} (hf : f.IsName) (ds : Text) :
    ¬f.Holds ['0'] ds := by
  rintro ⟨⟨hne, -⟩, hwithin⟩
  obtain ⟨r, hr⟩ := hf.hyphen
  have hlength := hwithin.length_le
  have hpos := List.length_pos_iff.2 hne
  simp only [Placeholder.Format.partText, hr, List.length_append, List.length_singleton] at hlength
  omega

private theorem ofText_tag_zero :
    Piece.ofText "\x7b\x7ba\x7d\x7d0".toList = [.tag ['a'], .literal ['0']] := by
  change Piece.ofText (Piece.opening ++ ['a'] ++ Piece.closing ++ ['0']) = _
  rw [Piece.ofText_tag (by decide), Piece.ofText_eq_literal (by decide) (by decide)]

private theorem lacks_tag_zero {f : Placeholder.Format} (hf : f.IsName) :
    f.Lacks "\x7b\x7ba\x7d\x7d0".toList := by
  intro t ht ds
  obtain rfl : t = ['0'] := by
    rw [ofText_tag_zero] at ht
    simpa using ht
  exact not_holds_zero hf ds

/-- The closing has a digit, but does not begin with it. -/
theorem restore_protectTags_hyphen_suffix :
    ({ placeholderPrefix := "x".toList, placeholderSuffix := "-0".toList } : Settings).Admitted ∧
      ({ placeholderPrefix := "x".toList, placeholderSuffix := "-0".toList } :
        Settings).tagPlaceholders.restore ["\x7b\x7ba\x7d\x7d".toList] "xtag-0-00".toList =
          .ok "\x7b\x7ba\x7d\x7d0".toList := by
  have hs : ({ placeholderPrefix := "x".toList, placeholderSuffix := "-0".toList } :
      Settings).Admitted := by decide
  have hpair : ({ placeholderPrefix := "x".toList, placeholderSuffix := "-0".toList } :
      Settings).tagPlaceholders.HasPair 'x' 't' :=
    ⟨⟨'-', ['0'], rfl, by decide⟩, ⟨_, rfl, by decide, by decide⟩, by decide, by decide⟩
  have hrestored := (restore_protectTags_iff hs).2.2 hpair.isClear.unambiguous
    "\x7b\x7ba\x7d\x7d0".toList (lacks_tag_zero hs.isName_tags)
  rw [protectTags, ofText_tag_zero] at hrestored
  exact ⟨hs, hrestored (Nat.one_le_pow _ _ (by decide))⟩

/-- With a closing of digits, a digit behind a tag is lost. -/
theorem restore_protectTags_digit_suffix :
    ({ placeholderSuffix := "0".toList } : Settings).Admitted ∧
      ({ placeholderSuffix := "0".toList } : Settings).tagPlaceholders.Lacks
        "\x7b\x7ba\x7d\x7d0".toList ∧
      ({ placeholderSuffix := "0".toList } : Settings).tagPlaceholders.restore
          (({ placeholderSuffix := "0".toList } : Settings).tagPlaceholders.protectTags
            "\x7b\x7ba\x7d\x7d0".toList).kept
          (({ placeholderSuffix := "0".toList } : Settings).tagPlaceholders.protectTags
            "\x7b\x7ba\x7d\x7d0".toList).text = .ok "\x7b\x7ba\x7d\x7d".toList := by
  have hs : ({ placeholderSuffix := "0".toList } : Settings).Admitted := by decide
  have hmatch : ({ placeholderSuffix := "0".toList } : Settings).tagPlaceholders.match?
      "templatize-tag-000".toList = some (['0', '0'], []) := by decide
  refine ⟨hs, lacks_tag_zero hs.isName_tags, ?_⟩
  rw [protectTags, ofText_tag_zero]
  change fillAll _ _ (parts _ "templatize-tag-000".toList) = _
  rw [parts_of_match? hmatch, parts_nil]
  rfl

end Settings

end Stencil
