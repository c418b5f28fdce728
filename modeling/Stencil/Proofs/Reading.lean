import Stencil.Proofs.Emission
import Stencil.Proofs.Pieces
import Stencil.Proofs.Placeholders

/-!
# How a tag is read

A tag is read without the blanks at its ends. If what is left begins with a keyword, the keyword
names the kind, and the rest, without the blanks at its ends, is the expression. Otherwise all of it
is interpolated. A keyword has no blank, so the first word of the tag decides. The keyword may be a
part of that word only: `@keyboard` is read as `@key` with the expression `board`.
-/

namespace Stencil

/-! ### Blanks at the ends of a text -/

namespace Text

theorem trimLeft_eq_nil_iff {s : Text} : trimLeft s = [] ↔ ∀ c ∈ s, isBlank c = true :=
  List.dropWhile_eq_nil_iff

theorem trimRight_eq_nil_iff {s : Text} : trimRight s = [] ↔ ∀ c ∈ s, isBlank c = true := by
  rw [trimRight, List.reverse_eq_nil_iff, List.dropWhile_eq_nil_iff]
  simp only [List.mem_reverse]

theorem trimLeft_blanks_append {blanks : Text} (h : ∀ c ∈ blanks, isBlank c = true) (s : Text) :
    trimLeft (blanks ++ s) = trimLeft s := by
  rw [trimLeft_append, if_pos (trimLeft_eq_nil_iff.2 h)]

theorem trim_blanks_append {blanks : Text} (h : ∀ c ∈ blanks, isBlank c = true) (s : Text) :
    trim (blanks ++ s) = trim s := by
  rw [trim, trimLeft_blanks_append h]
  rfl

theorem trim_append_blanks {blanks : Text} (h : ∀ c ∈ blanks, isBlank c = true) (s : Text) :
    trim (s ++ blanks) = trim s := by
  rw [trim, trim, trimLeft_append]
  split_ifs with hs
  · rw [hs, trimLeft_eq_nil_iff.2 h]
  · rw [trimRight_append, if_pos (trimRight_eq_nil_iff.2 h)]

theorem exists_trimLeft_eq (s : Text) :
    ∃ blanks : Text, (∀ c ∈ blanks, isBlank c = true) ∧ trimLeft s = trim s ++ blanks := by
  refine ⟨((trimLeft s).reverse.takeWhile isBlank).reverse, fun c hc => ?_, ?_⟩
  · exact List.mem_takeWhile_imp (List.mem_reverse.1 hc)
  · rw [trim, trimRight, ← List.reverse_append, List.takeWhile_append_dropWhile,
      List.reverse_reverse]

theorem trimLeft_eq_self_of_trim {s : Text} (h : trim s = s) : trimLeft s = s := by
  refine (List.dropWhile_sublist _).eq_of_length_le ?_
  calc s.length = (trim s).length := by rw [h]
    _ ≤ (trimLeft s).length := length_trimRight_le _

theorem trim_blank {s : Text} (h : trim s = s) : trim (' ' :: s) = s := by
  change trimRight (trimLeft s) = s
  exact h

theorem isBlank_of_head?_trim {s : Text} {c : Char} (h : c ∈ (trim s).head?) :
    isBlank c = false := by
  obtain ⟨blanks, hs⟩ : trim s <+: trimLeft s := trimRight_isPrefix _
  have hne : trim s ≠ [] := by
    rintro hnil
    rw [hnil] at h
    cases h
  apply head?_dropWhile (s := s)
  rw [← List.head?_append_of_ne_nil _ hne, hs] at h
  exact h

private theorem isBlank_of_getLast?_trim {s : Text} {c : Char} (h : c ∈ (trim s).getLast?) :
    isBlank c = false := by
  rw [trim, trimRight, List.getLast?_reverse] at h
  exact head?_dropWhile h

theorem trim_trim (s : Text) : trim (trim s) = trim s :=
  trim_eq_self (fun _ => isBlank_of_head?_trim) fun _ => isBlank_of_getLast?_trim

/-- A word without blanks that begins a text begins it without its trailing blanks. -/
theorem isPrefix_append_blanks_iff {w s blanks : Text} (hw : ∀ c ∈ w, isBlank c = false)
    (h : ∀ c ∈ blanks, isBlank c = true) : w <+: s ++ blanks ↔ w <+: s := by
  refine ⟨fun hfront => ?_, fun hfront => hfront.trans (List.prefix_append s blanks)⟩
  rcases prefix_append_cases hfront with hwithin | ⟨beyond, hne, hbeyond, rfl⟩
  · exact hwithin
  · obtain ⟨c, beyond, rfl⟩ := List.exists_cons_of_ne_nil hne
    have hblank := h c (hbeyond.subset List.mem_cons_self)
    rw [hw c (by simp)] at hblank
    cases hblank

/-- The text up to its first blank, leading blanks not counted. -/
def firstWord (s : Text) : Text := (trimLeft s).takeWhile fun c => !isBlank c

theorem isPrefix_trim_iff {w : Text} (hw : ∀ c ∈ w, isBlank c = false) (s : Text) :
    w <+: trim s ↔ w <+: firstWord s := by
  obtain ⟨blanks, hblanks, hs⟩ := exists_trimLeft_eq s
  rw [← isPrefix_append_blanks_iff hw hblanks, ← hs, firstWord]
  refine ⟨fun ⟨rest, hrest⟩ => ?_, fun h => h.trans (List.takeWhile_prefix _)⟩
  rw [← hrest, List.takeWhile_append_of_pos fun c hc => by rw [hw c hc]; rfl]
  exact List.prefix_append w _

end Text

/-! ### Keywords -/

namespace Kind

theorem of_mem_keyword (kind : Kind) :
    ∀ c ∈ kind.keyword, Text.IsOrdinary c ∧ c ≠ '\x27' ∧ c ≠ '\\' ∧ c ≠ '}' := by
  cases kind <;> decide

theorem isBlank_of_mem_keyword (kind : Kind) : ∀ c ∈ kind.keyword, Text.isBlank c = false := by
  cases kind <;> decide

theorem dropKeyword_keyword (kind : Kind) (h : kind ≠ interpolation) (s : Text) :
    dropKeyword (kind.keyword ++ s) = (kind, s) := by
  cases kind with
  | interpolation => exact absurd rfl h
  | each | eachEnd | hide | hideEnd | selectedIf | checkedIf | partialCall | key => rfl

theorem dropKeyword_of_no_keyword {s : Text}
    (h : ∀ kind, kind ≠ interpolation → ¬kind.keyword <+: s) :
    dropKeyword s = (interpolation, s) := by
  rw [dropKeyword]
  match hfound : all.findSome? fun kind => (Text.dropFront? kind.keyword s).map (kind, ·) with
  | none => rw [hfound]; rfl
  | some p =>
      rw [hfound]
      obtain ⟨kind, -, hp⟩ := List.exists_of_findSome?_eq_some hfound
      obtain ⟨rest, hrest, rfl⟩ := Option.map_eq_some_iff.1 hp
      have hs := Text.dropFront?_eq_some_iff.1 hrest
      by_cases hkind : kind = interpolation
      · subst hkind
        rw [hs]
        rfl
      · exact absurd ⟨rest, hs.symm⟩ (h kind hkind)

theorem trimLeft_keyword (kind : Kind) (h : kind ≠ interpolation) (s : Text) :
    Text.trimLeft (kind.keyword ++ s) = kind.keyword ++ s := by
  cases kind with
  | interpolation => exact absurd rfl h
  | each | eachEnd | hide | hideEnd | selectedIf | checkedIf | partialCall | key => rfl

end Kind

namespace Directive

theorem ofInner_keyword (kind : Kind) (h : kind ≠ .interpolation) (s : Text) :
    ofInner (kind.keyword ++ s) = ⟨kind, Text.trim s⟩ := by
  rw [ofInner, kind.trimLeft_keyword h, kind.dropKeyword_keyword h]

theorem ofInner_of_trim {kind : Kind} (h : kind ≠ .interpolation) {inner rest : Text}
    (htrim : Text.trim inner = kind.keyword ++ rest) : ofInner inner = ⟨kind, Text.trim rest⟩ := by
  obtain ⟨blanks, hblanks, hinner⟩ := Text.exists_trimLeft_eq inner
  rw [ofInner, hinner, htrim, List.append_assoc, kind.dropKeyword_keyword h]
  simp only [Text.trim_append_blanks hblanks]

theorem ofInner_of_no_keyword {inner : Text}
    (h : ∀ kind, kind ≠ .interpolation → ¬Kind.keyword kind <+: Text.trim inner) :
    ofInner inner = ⟨.interpolation, Text.trim inner⟩ := by
  obtain ⟨blanks, hblanks, hinner⟩ := Text.exists_trimLeft_eq inner
  have hno : ∀ kind, kind ≠ .interpolation → ¬Kind.keyword kind <+: Text.trimLeft inner := by
    intro kind hkind hfront
    rw [hinner, Text.isPrefix_append_blanks_iff kind.isBlank_of_mem_keyword hblanks] at hfront
    exact h kind hkind hfront
  rw [ofInner, Kind.dropKeyword_of_no_keyword hno]
  simp only [hinner, Text.trim_append_blanks hblanks, Text.trim_trim]

theorem ofInner_cases (inner : Text) :
    (∃ kind rest, kind ≠ .interpolation ∧ Text.trim inner = Kind.keyword kind ++ rest ∧
        ofInner inner = ⟨kind, Text.trim rest⟩) ∨
      (∀ kind, kind ≠ .interpolation → ¬Kind.keyword kind <+: Text.trim inner) ∧
        ofInner inner = ⟨.interpolation, Text.trim inner⟩ := by
  by_cases h : ∃ kind, kind ≠ .interpolation ∧ Kind.keyword kind <+: Text.trim inner
  · obtain ⟨kind, hkind, rest, hrest⟩ := h
    exact .inl ⟨kind, rest, hkind, hrest.symm, ofInner_of_trim hkind hrest.symm⟩
  · have hno : ∀ kind, kind ≠ .interpolation → ¬Kind.keyword kind <+: Text.trim inner :=
      fun kind hkind hfront => h ⟨kind, hkind, hfront⟩
    exact .inr ⟨hno, ofInner_of_no_keyword hno⟩

/-- Blanks at the ends of a tag make no difference. -/
theorem ofInner_trim (inner : Text) : ofInner (Text.trim inner) = ofInner inner := by
  rcases ofInner_cases inner with ⟨kind, rest, hkind, hrest, hinner⟩ | ⟨hno, hinner⟩
  · have htrim : Text.trim (Text.trim inner) = kind.keyword ++ rest := by rw [Text.trim_trim, hrest]
    rw [ofInner_of_trim hkind htrim, hinner]
  · rw [ofInner_of_no_keyword (by rwa [Text.trim_trim]), Text.trim_trim, hinner]

theorem ofInner_eq_interpolation_iff {inner : Text} :
    ofInner inner = ⟨.interpolation, Text.trim inner⟩ ↔
      ∀ kind, kind ≠ .interpolation → ¬Kind.keyword kind <+: Text.firstWord inner := by
  constructor
  · intro hd kind hkind hword
    obtain ⟨rest, hrest⟩ := (Text.isPrefix_trim_iff kind.isBlank_of_mem_keyword inner).2 hword
    rw [ofInner_of_trim hkind hrest.symm] at hd
    exact hkind (congrArg Directive.kind hd)
  · intro hword
    refine ofInner_of_no_keyword fun kind hkind hfront => hword kind hkind ?_
    exact (Text.isPrefix_trim_iff kind.isBlank_of_mem_keyword inner).1 hfront

end Directive

/-! ### The directives of a text -/

namespace Segment

/-- A tag is interpolated as a whole exactly if its first word begins with no keyword. If it begins
with a keyword, the tag is of that kind, and all that follows the keyword, in the same word or
behind it, is the expression. -/
theorem scan_tag {s inner : Text} {n : Nat} (h : (Piece.ofText s)[n]? = some (.tag inner)) :
    ∃ d, (scan s)[n]? = some (.directive d (((Piece.ofText s).take n).flatMap Piece.text).length
        (Piece.tag inner).text) ∧
      (d = ⟨.interpolation, Text.trim inner⟩ ↔
        ∀ kind, kind ≠ .interpolation → ¬Kind.keyword kind <+: Text.firstWord inner) ∧
      ∀ kind rest, kind ≠ .interpolation → Text.trim inner = Kind.keyword kind ++ rest →
        d = ⟨kind, Text.trim rest⟩ := by
  refine ⟨Directive.ofInner inner, ?_, Directive.ofInner_eq_interpolation_iff, ?_⟩
  · rw [scan, getElem?_locate, h, Nat.zero_add]
    rfl
  · intro kind rest hkind htrim
    exact Directive.ofInner_of_trim hkind htrim

/-- A word that is no keyword is interpolated. -/
theorem scan_tag_name :
    (Piece.ofText "\x7b\x7b name \x7d\x7d".toList)[0]? = some (.tag " name ".toList) ∧
      (scan "\x7b\x7b name \x7d\x7d".toList)[0]? =
        some (.directive ⟨.interpolation, "name".toList⟩ 0 "\x7b\x7b name \x7d\x7d".toList) := by
  have hpieces : Piece.ofText "\x7b\x7b name \x7d\x7d".toList = [.tag " name ".toList] := by
    have hcut : Piece.ofText (Piece.opening ++ " name ".toList ++ Piece.closing ++ []) =
        .tag " name ".toList :: Piece.ofText [] := Piece.ofText_tag (by decide) []
    rwa [Piece.ofText] at hcut
  have htag : (Piece.ofText "\x7b\x7b name \x7d\x7d".toList)[0]? = some (.tag " name ".toList) := by
    rw [hpieces]
    rfl
  obtain ⟨d, hscan, hplain, -⟩ := scan_tag htag
  refine ⟨htag, ?_⟩
  rw [hscan, hplain.2 fun kind hkind => by cases kind <;> first | exact absurd rfl hkind | decide]
  rfl

/-- A word that begins with a keyword and is none is not interpolated. -/
theorem scan_keyboard :
    (Piece.ofText "\x7b\x7b@keyboard\x7d\x7d".toList)[0]? = some (.tag "@keyboard".toList) ∧
      (∀ kind, Text.firstWord "@keyboard".toList ≠ Kind.keyword kind) ∧
      ¬Kind.partialCall.keyword <+: Text.trim "@keyboard".toList ∧
      (scan "\x7b\x7b@keyboard\x7d\x7d".toList)[0]? =
        some (.directive ⟨.key, "board".toList⟩ 0 "\x7b\x7b@keyboard\x7d\x7d".toList) := by
  have hpieces : Piece.ofText "\x7b\x7b@keyboard\x7d\x7d".toList = [.tag "@keyboard".toList] := by
    have hcut : Piece.ofText (Piece.opening ++ "@keyboard".toList ++ Piece.closing ++ []) =
        .tag "@keyboard".toList :: Piece.ofText [] := Piece.ofText_tag (by decide) []
    rwa [Piece.ofText] at hcut
  refine ⟨?_, fun kind => by cases kind <;> decide, by decide, ?_⟩
  · rw [hpieces]
    rfl
  · rw [scan, hpieces]
    rfl

end Segment

end Stencil
