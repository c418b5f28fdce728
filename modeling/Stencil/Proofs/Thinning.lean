import Stencil.Html.Attribute
import Stencil.Proofs.Protection

/-!
# Thinning a template

Markup is rewritten by dropping stretches without placeholders, each of which leaves at least one
separator in its place. Braces and placeholders are no separators, so whatever stands side by side
among them after the rewriting stood side by side before it. In a calm text this is all that
scanning depends on: when its placeholders are filled with tags, the tags are found again.
-/

namespace Stencil.Placeholder.Format

open Html

/-- A character that can stand in a name, or a placeholder. -/
def Part.IsSolid : Part → Prop
  | .char c => Attribute.isNameChar c = true
  | .hole _ => True

instance (p : Part) : Decidable p.IsSolid :=
  match p with
  | .char _ => inferInstanceAs (Decidable (_ = _))
  | .hole _ => inferInstanceAs (Decidable True)

def Part.digits? : Part → Option Text
  | .char _ => none
  | .hole ds => some ds

theorem mem_digits_iff {ds : Text} {ps : List Part} :
    ds ∈ ps.filterMap Part.digits? ↔ .hole ds ∈ ps := by
  rw [List.mem_filterMap]
  constructor
  · rintro ⟨p, hp, hds⟩
    match p with
    | .char _ => cases hds
    | .hole es =>
        obtain rfl := Option.some.inj hds
        exact hp
  · exact fun h => ⟨_, h, rfl⟩

theorem filterMap_map_char (t : Text) : (t.map Part.char).filterMap Part.digits? = [] := by
  rw [List.filterMap_map]
  exact List.filterMap_eq_nil_iff.2 fun _ _ => rfl

/-- Stretches of characters are dropped, and each leaves separators in its place. -/
inductive Thinned : List Part → List Part → Prop where
  | nil : Thinned [] []
  | keep (p : Part) {a b : List Part} (h : Thinned a b) : Thinned (p :: a) (p :: b)
  | gap (dropped : Text) {left : Text} {a b : List Part} (hne : left ≠ [])
      (hleft : ∀ c ∈ left, Attribute.isNameChar c = false) (h : Thinned a b) :
      Thinned (dropped.map .char ++ a) (left.map .char ++ b)

namespace Thinned

variable {a b v w x y : List Part}

theorem keepAll (x : List Part) (h : Thinned a b) : Thinned (x ++ a) (x ++ b) := by
  induction x with
  | nil => exact h
  | cons p x ih => exact .keep p ih

theorem refl (a : List Part) : Thinned a a := by
  have h := keepAll a .nil
  rwa [List.append_nil] at h

theorem filterMap_digits? (h : Thinned a b) :
    b.filterMap Part.digits? = a.filterMap Part.digits? := by
  induction h with
  | nil => rfl
  | keep p _ ih => rw [List.filterMap_cons, List.filterMap_cons, ih]
  | gap dropped _ _ _ ih =>
      rw [List.filterMap_append, List.filterMap_append, filterMap_map_char, filterMap_map_char, ih]

private theorem exists_of_front (h : Thinned a (w ++ y)) (hw : ∀ p ∈ w, p.IsSolid) :
    ∃ z, a = w ++ z ∧ Thinned z y := by
  induction w generalizing a with
  | nil => exact ⟨a, rfl, h⟩
  | cons p w ih =>
      obtain ⟨hp, hw⟩ := List.forall_mem_cons.1 hw
      generalize hb : p :: w ++ y = b at h
      cases h with
      | nil => cases hb
      | keep q h =>
          obtain ⟨rfl, rfl⟩ := List.cons.inj hb
          obtain ⟨z, rfl, hz⟩ := ih h hw
          exact ⟨z, rfl, hz⟩
      | gap dropped hne hleft h =>
          rename_i left _ _
          match left with
          | [] => exact absurd rfl hne
          | c :: left =>
              obtain ⟨rfl, -⟩ := List.cons.inj hb
              have hc := hleft c List.mem_cons_self
              rw [Part.IsSolid, hc] at hp
              cases hp

/-- What is solid has been there, and what follows it is thinned. -/
theorem exists_of_append (h : Thinned a (x ++ (w ++ y))) (hne : w ≠ []) (hw : ∀ p ∈ w, p.IsSolid) :
    ∃ u z, a = u ++ (w ++ z) ∧ Thinned z y := by
  generalize hb : x ++ (w ++ y) = b at h
  induction h generalizing x with
  | nil => simp [hne] at hb
  | keep p h ih =>
      match x with
      | [] =>
          have hkept := Thinned.keep p h
          rw [← hb, List.nil_append] at hkept
          obtain ⟨z, hz, hthinned⟩ := exists_of_front hkept hw
          exact ⟨[], z, hz, hthinned⟩
      | q :: x =>
          obtain ⟨rfl, hrest⟩ := List.cons.inj hb
          obtain ⟨u, z, rfl, hz⟩ := ih hrest
          exact ⟨q :: u, z, rfl, hz⟩
  | @gap dropped left a b _ hleft h ih =>
      rcases List.append_eq_append_iff.1 hb with ⟨x', hx, hrest⟩ | ⟨x', rfl, hrest⟩
      · match x', w with
        | [], w =>
            obtain ⟨u, z, rfl, hz⟩ := ih (x := []) hrest
            exact ⟨dropped.map .char ++ u, z, by simp, hz⟩
        | p :: x', q :: w =>
            -- A separator is not solid.
            obtain ⟨rfl, -⟩ := List.cons.inj hrest
            have hmem : q ∈ left.map Part.char := by simp [hx]
            obtain ⟨c, hc, rfl⟩ := List.mem_map.1 hmem
            have hsolid := hw _ List.mem_cons_self
            rw [Part.IsSolid, hleft c hc] at hsolid
            cases hsolid
      · obtain ⟨u, z, rfl, hz⟩ := ih hrest.symm
        exact ⟨dropped.map .char ++ u, z, by simp, hz⟩

theorem isInfix (h : Thinned a b) (hw : ∀ p ∈ w, p.IsSolid) (hwithin : w <:+: b) : w <:+: a := by
  match w with
  | [] => exact List.nil_infix
  | p :: w =>
      obtain ⟨x, y, rfl⟩ := hwithin
      rw [List.append_assoc] at h
      obtain ⟨u, z, rfl, -⟩ := exists_of_append h (by simp) hw
      exact ⟨u, z, by simp⟩

theorem hole_mem_iff (h : Thinned a b) (ds : Text) : .hole ds ∈ b ↔ .hole ds ∈ a := by
  rw [← mem_digits_iff, ← mem_digits_iff, h.filterMap_digits?]

/-- A thinned text is thinned as it stands too, with characters in the place of placeholders. -/
theorem chars {f : Format} {s t : Text} (h : Thinned (f.parts s) (f.parts t)) :
    Thinned (s.map .char) (t.map .char) := by
  have hflat (u : Text) : u.map Part.char =
      (f.parts u).flatMap fun p => (f.partText p).map Part.char := by
    rw [← List.map_flatMap, flatMap_partText_parts]
  have hchars (u : Text) :
      (u.map Part.char).flatMap (fun p => (f.partText p).map Part.char) = u.map .char := by
    rw [List.flatMap_map]
    exact List.map_eq_flatMap.symm
  rw [hflat s, hflat t]
  generalize f.parts s = a, f.parts t = b at h
  induction h with
  | nil => exact .nil
  | keep p _ ih => exact ih.keepAll _
  | gap dropped hne hleft _ ih =>
      rw [List.flatMap_append, List.flatMap_append, hchars, hchars]
      exact .gap dropped hne hleft ih

end Thinned

/-! ### Calm texts -/

/-- No brace stands right before a placeholder, and opening braces without a placeholder between
them are closed by nothing that follows. -/
structure Calm (ps : List Part) : Prop where
  apart : ∀ ds, ¬[.char '{', .hole ds] <:+: ps
  unclosed : ∀ x y, ps = x ++ ([.char '{', .char '{'] ++ y) →
    (∀ ds, .hole ds ∉ y) ∧ ¬[.char '}', .char '}'] <:+: y

theorem Calm.thinned {a b : List Part} (ha : Calm a) (h : Thinned a b) : Calm b := by
  have hopens : ∀ p ∈ [Part.char '{', .char '{'], p.IsSolid := by decide
  have hcloses : ∀ p ∈ [Part.char '}', .char '}'], p.IsSolid := by decide
  constructor
  · intro ds hwithin
    exact ha.apart ds (h.isInfix (by simp [Part.IsSolid]; decide) hwithin)
  · intro x y hb
    rw [hb] at h
    obtain ⟨u, z, rfl, hz⟩ := h.exists_of_append (by simp) hopens
    obtain ⟨hholes, hclosed⟩ := ha.unclosed u z rfl
    exact ⟨fun ds hds => hholes ds ((hz.hole_mem_iff ds).1 hds),
      fun hwithin => hclosed (hz.isInfix hcloses hwithin)⟩

theorem Calm.of_cons {p : Part} {ps : List Part} (h : Calm (p :: ps)) : Calm ps := by
  constructor
  · exact fun ds hwithin => h.apart ds (hwithin.trans (List.suffix_cons p ps).isInfix)
  · rintro x y rfl
    exact h.unclosed (p :: x) y rfl

theorem Calm.cons {p : Part} {ps : List Part} (h : Calm ps)
    (hp : p = .char '{' → ∀ q ∈ ps.head?, q ≠ .char '{' ∧ ∀ ds, q ≠ .hole ds) : Calm (p :: ps) := by
  constructor
  · intro ds hwithin
    rcases List.infix_cons_iff.1 hwithin with ⟨y, hy⟩ | hrest
    · obtain ⟨rfl, rfl⟩ := List.cons.inj hy
      exact (hp rfl _ rfl).2 ds rfl
    · exact h.apart ds hrest
  · intro x y heq
    match x with
    | [] =>
        obtain ⟨rfl, rfl⟩ := List.cons.inj heq
        exact absurd rfl (hp rfl _ rfl).1
    | q :: x => exact h.unclosed x y (List.cons.inj heq).2

private theorem exists_of_no_hole {ps : List Part} (h : ∀ ds, .hole ds ∉ ps) :
    ∃ t : Text, ps = t.map .char := by
  induction ps with
  | nil => exact ⟨[], rfl⟩
  | cons p ps ih =>
      obtain ⟨t, rfl⟩ := ih fun ds hds => h ds (List.mem_cons_of_mem _ hds)
      match p with
      | .char c => exact ⟨c :: t, rfl⟩
      | .hole ds => exact absurd List.mem_cons_self (h ds)

variable {f : Format} {kept : List Text}

/-- Scanning finds the tags that the placeholders of a calm text are filled with, and no others. -/
theorem Calm.tags_filled {ps : List Part} (h : Calm ps)
    (hkept : ∀ ds, .hole ds ∈ ps → Piece.IsTag (f.filled kept (.hole ds))) :
    Piece.tags (Piece.ofText (ps.flatMap (f.filled kept))) =
      (ps.filterMap Part.digits?).map fun ds => f.filled kept (.hole ds) := by
  induction ps with
  | nil => rw [List.flatMap_nil, Piece.ofText]; rfl
  | cons p ps ih =>
      have ih := ih h.of_cons fun ds hds => hkept ds (List.mem_cons_of_mem _ hds)
      cases p with
      | hole ds =>
          rw [List.flatMap_cons, (hkept ds List.mem_cons_self).tags_ofText, ih]
          rfl
      | char c =>
          change Piece.tags (Piece.ofText (c :: ps.flatMap (f.filled kept))) = _
          by_cases hopen : c = '{' → (ps.flatMap (f.filled kept)).head? ≠ some '{'
          · rw [Piece.ofText_cons hopen, Piece.tags_literal_behind, ih]
            rfl
          · -- The braces are closed by nothing, so all the rest is literal text.
            rw [Classical.not_imp, not_not] at hopen
            obtain ⟨rfl, hhead⟩ := hopen
            cases ps with
            | nil => cases hhead
            | cons q ps =>
                cases q with
                | hole ds => exact absurd ⟨[], ps, rfl⟩ (h.apart ds)
                | char d =>
                    obtain rfl : d = '{' := Option.some.inj hhead
                    obtain ⟨hholes, hclosed⟩ := h.unclosed [] ps rfl
                    obtain ⟨t, rfl⟩ := exists_of_no_hole hholes
                    have hcut : Piece.cutClosing? t = none := by
                      rw [Piece.cutClosing?_eq_none_iff]
                      exact fun hwithin => hclosed (hwithin.map Part.char)
                    change Piece.tags (Piece.ofText
                      (Piece.opening ++ (t.map Part.char).flatMap (f.filled kept))) = _
                    rw [flatMap_filled_map_char, Piece.ofText_of_cut_eq_none hcut]
                    rw [List.filterMap_cons, List.filterMap_cons, filterMap_map_char]
                    rfl

/-! ### The template before it is thinned -/

/-- The characters of literal text, and a placeholder for each tag, the first of which has the given
number. -/
def tokens : Nat → List Piece → List Part
  | _, [] => []
  | n, .literal t :: ps => t.map .char ++ tokens n ps
  | n, .tag _ :: ps => .hole (Text.ofNat n) :: tokens (n + 1) ps

theorem tokens_consLiteral (n : Nat) (c : Char) (ps : List Piece) :
    tokens n (Piece.consLiteral c ps) = .char c :: tokens n ps := by
  match ps with
  | [] | .literal _ :: _ | .tag _ :: _ => rfl

theorem map_fst_units {n : Nat} {ps : List Piece}
    (h : ∀ t, .literal t ∈ ps → ∀ ds, ¬f.Holds t ds) :
    (f.units n ps).map Prod.fst = tokens n ps := by
  induction ps generalizing n with
  | nil => rfl
  | cons p ps ih =>
      have ih {n : Nat} := ih (n := n) fun t ht => h t (List.mem_cons_of_mem _ ht)
      match p with
      | .tag inner => rw [units, List.map_cons, ih, tokens]
      | .literal t =>
          rw [units, List.map_append, ih, List.map_map, Function.comp_def, List.map_id',
            parts_eq_map_char_of_not_holds (h t List.mem_cons_self), tokens]

/-- The character that a part of the template begins with, if its placeholders are tags. -/
def Part.first : Part → Char
  | .char c => c
  | .hole _ => '{'

private theorem head?_of_head?_tokens {n : Nat} {s : Text} {p : Part}
    (h : p ∈ (tokens n (Piece.ofText s)).head?) : s.head? = some p.first := by
  fun_cases Piece.ofText s with
  | case1 r inner rest hcut =>
      change p ∈ (tokens n (Piece.ofText (Piece.opening ++ r))).head? at h
      rw [Piece.ofText_of_cut hcut] at h
      obtain rfl := Option.some.inj h
      rfl
  | case2 r hcut =>
      change p ∈ (tokens n (Piece.ofText (Piece.opening ++ r))).head? at h
      rw [Piece.ofText_of_cut_eq_none hcut] at h
      obtain rfl := Option.some.inj h
      rfl
  | case3 c r hne =>
      rw [Piece.ofText, tokens_consLiteral] at h
      · obtain rfl := Option.some.inj h
        rfl
      · exact hne
  | case4 => rw [Piece.ofText] at h; cases h

theorem isInfix_of_map_char {u t : Text} (h : u.map Part.char <:+: t.map Part.char) : u <:+: t := by
  have hinjective : Function.Injective Part.char := fun _ _ => Part.char.inj
  obtain ⟨x, y, hxy⟩ := h
  obtain ⟨s, b, rfl, hs, -⟩ := List.map_eq_append_iff.1 hxy.symm
  obtain ⟨a, v, rfl, -, hv⟩ := List.map_eq_append_iff.1 hs
  obtain rfl := List.map_injective_iff.2 hinjective hv
  exact ⟨a, b, rfl⟩

private theorem calm_map_char {t : Text} (h : ¬Piece.closing <:+: t) : Calm (t.map .char) := by
  have hhole (ds : Text) : .hole ds ∉ t.map Part.char := by simp
  constructor
  · exact fun ds hwithin => hhole ds (hwithin.subset (by simp))
  · intro x y heq
    have hy : y <:+ t.map Part.char := ⟨x ++ [.char '{', .char '{'], by rw [heq]; simp⟩
    refine ⟨fun ds hds => hhole ds (hy.subset hds), fun hwithin => h ?_⟩
    exact isInfix_of_map_char (u := Piece.closing) (hwithin.trans hy.isInfix)

theorem calm_tokens (n : Nat) (s : Text) : Calm (tokens n (Piece.ofText s)) := by
  fun_induction Piece.ofText s generalizing n with
  | case1 r inner rest hcut ih => exact (ih (n + 1)).cons fun hp => by cases hp
  | case2 r hcut =>
      rw [tokens, tokens, List.append_nil]
      exact calm_map_char (Piece.not_closing_isInfix hcut)
  | case3 c r hne ih =>
      rw [tokens_consLiteral]
      refine (ih n).cons ?_
      intro hc q hq
      obtain rfl := Part.char.inj hc
      have hbrace : r.head? ≠ some '{' := by
        intro hhead
        obtain ⟨t, rfl⟩ := List.head?_eq_some_iff.1 hhead
        exact hne t rfl rfl
      rw [head?_of_head?_tokens hq] at hbrace
      exact ⟨fun hd => hbrace (by rw [hd]; rfl), fun ds hds => hbrace (by rw [hds]; rfl)⟩
  | case4 => exact calm_map_char (t := []) (by decide)

theorem map_filled_digits?_tokens {n : Nat} {ps : List Piece} (h : kept.drop n = Piece.tags ps) :
    ((tokens n ps).filterMap Part.digits?).map (fun ds => f.filled kept (.hole ds)) =
      Piece.tags ps := by
  induction ps generalizing n with
  | nil => rfl
  | cons p ps ih =>
      match p with
      | .literal t => rw [tokens, List.filterMap_append, filterMap_map_char]; exact ih h
      | .tag inner =>
          obtain ⟨hhead, htail⟩ := of_drop_eq_cons h
          change f.filled kept (.hole (Text.ofNat n)) :: _ = (Piece.tag inner).text :: _
          rw [filled_ofNat hhead]
          exact congrArg _ (ih htail)

theorem exists_of_hole_mem_tokens {n : Nat} {ps : List Piece} (h : kept.drop n = Piece.tags ps)
    {ds : Text} (hds : .hole ds ∈ tokens n ps) : ∃ k t, kept[k]? = some t ∧ ds = Text.ofNat k := by
  induction ps generalizing n with
  | nil => cases hds
  | cons p ps ih =>
      match p with
      | .literal t =>
          rcases List.mem_append.1 hds with hchar | hrest
          · simp at hchar
          · exact ih h hrest
      | .tag inner =>
          obtain ⟨hhead, htail⟩ := of_drop_eq_cons h
          rcases List.mem_cons.1 hds with heq | hrest
          · exact ⟨n, _, hhead, Part.hole.inj heq⟩
          · exact ih htail hrest

theorem exists_literal_of_isInfix {w : Text} (hw : w ≠ []) {n : Nat} {ps : List Piece}
    (hps : ps.IsChain Piece.MeetAtTag) (h : w.map .char <:+: tokens n ps) :
    ∃ t, .literal t ∈ ps ∧ w <:+: t := by
  have hhole (ds : Text) : .hole ds ∉ w.map Part.char := by simp
  induction ps generalizing n with
  | nil =>
      have hnil := List.eq_nil_of_infix_nil h
      exact absurd (List.map_eq_nil_iff.1 hnil) hw
  | cons p ps ih =>
      obtain ⟨hnext, hchain⟩ := List.isChain_cons.1 hps
      have hrest (m : Nat) (hwithin : w.map .char <:+: tokens m ps) :
          ∃ t, .literal t ∈ p :: ps ∧ w <:+: t := by
        obtain ⟨t, ht, hwt⟩ := ih hchain hwithin
        exact ⟨t, List.mem_cons_of_mem _ ht, hwt⟩
      cases p with
      | tag inner =>
          have hsplit := Text.isInfix_or_of_not_mem (x := []) (hhole (Text.ofNat n)) h
          rcases hsplit with hfront | hwithin
          · exact absurd (List.map_eq_nil_iff.1 (List.eq_nil_of_infix_nil hfront)) hw
          · exact hrest _ hwithin
      | literal t =>
          rw [tokens] at h
          match ps, h, hnext, hrest with
          | [], h, _, _ =>
              rw [tokens, List.append_nil] at h
              exact ⟨t, List.mem_cons_self, isInfix_of_map_char h⟩
          | .literal u :: _, _, hnext, _ => exact absurd rfl (hnext _ rfl t u rfl)
          | .tag inner :: _, h, _, hrest =>
              rcases Text.isInfix_or_of_not_mem (hhole (Text.ofNat n)) h with hfront | hwithin
              · exact ⟨t, List.mem_cons_self, isInfix_of_map_char hfront⟩
              · exact hrest _ (hwithin.trans (List.suffix_cons _ _).isInfix)

end Stencil.Placeholder.Format
