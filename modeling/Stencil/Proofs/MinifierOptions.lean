import Stencil.Proofs.Merging
import Stencil.Proofs.Spellings

/-!
# Options of the minifier

Reading the minifier's options gives every option what the object sets it to and keeps the members
that give no option. So it comes to the same if every key is first spelled in one way, or if the
object is merged onto the defaults: that gives every option that is missing its default, which is
what reading gives it anyway. Options that were read can be read back from their object.
-/

namespace Stencil

/-! ### Members that give no option -/

theorem Json.HasDistinctKeys.filter {o : Object} (h : (Json.object o).HasDistinctKeys)
    (q : Text × Json → Bool) : (Json.object (o.filter q)).HasDistinctKeys := by
  cases h with
  | leaf h => cases h
  | object hkeys hvalues =>
      apply HasDistinctKeys.object
      · exact (List.filter_sublist.map Prod.fst).nodup hkeys
      · intro m hm
        exact hvalues m (List.mem_filter.1 hm).1

namespace Object

theorem filter_merge (q : Text → Bool) (t s : Object) :
    (merge t s).filter (fun m => q m.1) =
      merge (t.filter fun m => q m.1) (s.filter fun m => q m.1) := by
  induction s generalizing t with
  | nil => rw [List.filter_nil, merge_nil, merge_nil]
  | cons m s ih =>
      obtain ⟨key, value⟩ := m
      rw [merge_cons, ih, Table.filter_put, List.filter_cons]
      by_cases hq : q key = true
      · rw [if_pos hq, if_pos hq, merge_cons, Table.get?_filter t hq]
      · rw [if_neg hq, if_neg hq]

variable {ps : List Spelling} {t s : Object}

theorem extras_merge (ht : t.extras ps = []) (hs : (Json.object s).HasDistinctKeys) :
    (merge t s).extras ps = s.extras ps := by
  have hsplit : (merge t s).extras ps = merge (t.extras ps) (s.extras ps) :=
    filter_merge (fun key => !ps.any fun p => p.names key) t s
  rw [hsplit, ht]
  exact nil_merge (hs.filter _)

theorem get?_extras {p : Spelling} (hp : p ∈ ps) {key : Text} (h : p.names key = true) :
    (s.extras ps).get? key = none := by
  rw [Table.get?_eq_none_iff]
  intro hkey
  obtain ⟨m, hm, rfl⟩ := List.mem_map.1 hkey
  have hnone := (List.mem_filter.1 hm).2
  rw [Bool.not_eq_true', List.any_eq_false] at hnone
  exact hnone p hp h

theorem get?_extras_of_not_names {key : Text} (h : ∀ p ∈ ps, p.names key = false) :
    (s.extras ps).get? key = s.get? key := by
  have hkeeps : (!ps.any fun p => p.names key) = true := by
    rw [Bool.not_eq_true', List.any_eq_false]
    intro p hp
    rw [h p hp]
    exact Bool.false_ne_true
  exact Table.get?_filter (q := fun key => !ps.any fun p => p.names key) s hkeeps

/-! ### Merging onto defaults -/

private theorem mergeInto_bool (b : Bool) (v : Json) : Json.mergeInto (some (.bool b)) v = v := by
  cases v <;> simp [Json.mergeInto]

variable {p : Spelling} {default : Bool} {key : Text}

theorem map_either?_eq_some_iff (honce : s.get? p.key = none ∨ s.get? p.snakeKey = none) :
    (s.either? p.key p.snakeKey).map Prod.fst = some key ↔
      key ∈ s.map Prod.fst ∧ p.names key = true := by
  have hmem {key : Text} {v : Json} (hget : s.get? key = some v) : key ∈ s.map Prod.fst :=
    List.mem_map_of_mem (f := Prod.fst) (Table.mem_of_get? hget)
  have hnot {key : Text} (hget : s.get? key = none) : key ∉ s.map Prod.fst :=
    Table.get?_eq_none_iff.1 hget
  rw [Spelling.names_iff, either?]
  cases hkey : s.get? p.key with
  | some v =>
      have hsnake := honce.resolve_left (by rw [hkey]; exact Option.some_ne_none v)
      constructor
      · intro hused
        obtain rfl := Option.some.inj hused
        exact ⟨hmem hkey, .inl rfl⟩
      · rintro ⟨hin, rfl | rfl⟩
        · rfl
        · exact absurd hin (hnot hsnake)
  | none =>
      cases hsnake : s.get? p.snakeKey with
      | some v =>
          constructor
          · intro hused
            obtain rfl := Option.some.inj hused
            exact ⟨hmem hsnake, .inr rfl⟩
          · rintro ⟨hin, rfl | rfl⟩
            · exact absurd hin (hnot hkey)
            · rfl
      | none =>
          constructor
          · intro hused
            cases hused
          · rintro ⟨hin, rfl | rfl⟩
            · exact absurd hin (hnot hkey)
            · exact absurd hin (hnot hsnake)

theorem setting_merge (hs : (s.map Prod.fst).Nodup) (hsnake : s.get? p.snakeKey = none)
    (ht : t.get? p.key = some (.bool default)) (htsnake : t.get? p.snakeKey = none) :
    (merge t s).setting p default = s.setting p default := by
  have hnone : (merge t s).get? p.snakeKey = none := by rw [get?_merge_of_none hsnake, htsnake]
  rw [setting, setting, given?, given?, hnone, hsnake, Option.or_none, Option.or_none]
  cases hgiven : s.get? p.key with
  | none =>
      rw [get?_merge_of_none hgiven, ht]
      rfl
  | some v => rw [get?_merge_of_some hs hgiven, ht, mergeInto_bool]

end Object

/-! ### Options of the minifier -/

theorem HtmlFlag.spelling_mem (f : HtmlFlag) : f.spelling ∈ spellings :=
  List.mem_map_of_mem f.mem_all

theorem HtmlFlag.forall_mem_spellings {P : Spelling → Prop} :
    (∀ p ∈ spellings, P p) ↔ ∀ f : HtmlFlag, P f.spelling := by
  constructor
  · intro h f
    exact h _ f.spelling_mem
  · intro h p hp
    obtain ⟨f, -, rfl⟩ := List.mem_map.1 hp
    exact h f

namespace HtmlOptions

variable {o members : Object} {h : HtmlOptions}

theorem findings_eq_nil_iff : findings o = [] ↔
    ∀ f : HtmlFlag, ∃ b, o.readFlag f.key f.snakeKey f.default = .ok b := by
  rw [findings, List.flatMap_eq_nil_iff]
  constructor
  · intro hnone f
    have hf := hnone f f.mem_all
    cases hread : o.readFlag f.key f.snakeKey f.default with
    | ok b => exact ⟨b, rfl⟩
    | error details =>
        rw [hread] at hf
        obtain rfl : details = [] := hf
        rw [Object.readFlag] at hread
        split at hread
        · cases hread
        · next used v _ =>
            cases hv : v.toBool with
            | ok b => rw [hv] at hread; cases hread
            | error finding => rw [hv] at hread; cases hread
  · intro hall f _
    obtain ⟨b, hb⟩ := hall f
    rw [hb]

private theorem extrasOf_eq (honce : o.SpellsOnce HtmlFlag.spellings) :
    extrasOf o = o.extras HtmlFlag.spellings := by
  apply List.filter_congr
  intro m hm
  have hkey : m.1 ∈ o.map Prod.fst := List.mem_map_of_mem hm
  rw [Bool.not_inj_iff, Bool.eq_iff_iff, List.contains_iff_mem, List.mem_filterMap,
    List.any_eq_true]
  constructor
  · rintro ⟨f, -, hused⟩
    exact ⟨f.spelling, f.spelling_mem, ((Object.map_either?_eq_some_iff
      (honce _ f.spelling_mem)).1 hused).2⟩
  · rintro ⟨p, hp, hnames⟩
    obtain ⟨f, hf, rfl⟩ := List.mem_map.1 hp
    exact ⟨f, hf, (Object.map_either?_eq_some_iff (honce _ hp)).2 ⟨hkey, hnames⟩⟩

theorem ofObject_eq_ok_iff (honce : o.SpellsOnce HtmlFlag.spellings) :
    ofObject o = .ok h ↔
      (∀ f : HtmlFlag, o.setting f.spelling f.default = .ok (h.flag f)) ∧
        h.extras = o.extras HtmlFlag.spellings := by
  have hflags : (∀ f : HtmlFlag, o.setting f.spelling f.default = .ok (h.flag f)) ↔
      ∀ f : HtmlFlag, o.readFlag f.key f.snakeKey f.default = .ok (h.flag f) :=
    forall_congr' fun f => (Object.readFlag_eq_ok_iff (p := f.spelling)).symm
  rw [hflags, ← extrasOf_eq honce, ofObject]
  by_cases hfindings : findings o = []
  · rw [if_pos hfindings, Except.ok.injEq]
    constructor
    · rintro rfl
      refine ⟨?_, rfl⟩
      intro f
      obtain ⟨b, hb⟩ := findings_eq_nil_iff.1 hfindings f
      have hflag : flagOf o f = b := by rw [flagOf, hb]
      rw [hb]
      exact congrArg Except.ok hflag.symm
    · rintro ⟨hread, hkept⟩
      have hflag : flagOf o = h.flag := by
        funext f
        rw [flagOf, hread f]
      rw [hflag, ← hkept]
  · rw [if_neg hfindings]
    constructor
    · intro heq
      cases heq
    · rintro ⟨hread, -⟩
      exact absurd (findings_eq_nil_iff.2 fun f => ⟨_, hread f⟩) hfindings

/-- Every key is the first one of its option. -/
def Plain (o : Object) : Prop := ∀ p ∈ HtmlFlag.spellings, o.get? p.snakeKey = none

theorem Plain.spellsOnce (h : Plain o) : o.SpellsOnce HtmlFlag.spellings := by
  intro p hp
  exact .inr (h p hp)

theorem ofObject_nil : ofObject [] = .ok {} :=
  (ofObject_eq_ok_iff fun _ _ => .inl rfl).2 ⟨fun _ => rfl, rfl⟩

/-! ### Options as an object -/

def flags (h : HtmlOptions) : Object := HtmlFlag.all.map fun f => (f.key, .bool (h.flag f))

theorem map_fst_flags (h : HtmlOptions) :
    h.flags.map Prod.fst = HtmlFlag.spellings.map Spelling.key := by
  rw [flags, HtmlFlag.spellings, List.map_map, List.map_map]
  rfl

theorem nodup_flags (h : HtmlOptions) : (h.flags.map Prod.fst).Nodup := by
  rw [map_fst_flags]
  exact (List.nodup_append.1 HtmlFlag.respells.distinct).1

private theorem extras_flags (h : HtmlOptions) : h.flags.extras HtmlFlag.spellings = [] := by
  rw [Object.extras, List.filter_eq_nil_iff]
  intro m hm
  obtain ⟨f, -, rfl⟩ := List.mem_map.1 hm
  rw [Bool.not_eq_true', Bool.not_eq_false, List.any_eq_true]
  exact ⟨_, f.spelling_mem, Spelling.names_iff.2 (.inl rfl)⟩

theorem toObject_eq (h : HtmlOptions) : h.toObject = h.flags ++ h.extras := rfl

theorem get?_toObject_key (h : HtmlOptions) (f : HtmlFlag) :
    h.toObject.get? f.key = some (.bool (h.flag f)) := by
  have hflag : h.flags.get? f.key = some (.bool (h.flag f)) :=
    Table.get?_of_mem h.nodup_flags (List.mem_map.2 ⟨f, f.mem_all, rfl⟩)
  rw [toObject_eq, Table.get?_append, hflag]
  rfl

/-- The other members give no option, and their keys are distinct. -/
structure Kept (h : HtmlOptions) : Prop where
  extras : h.extras.extras HtmlFlag.spellings = h.extras
  distinct : (Json.object h.extras).HasDistinctKeys

theorem kept_default : ({} : HtmlOptions).Kept :=
  ⟨rfl, .object List.nodup_nil (List.forall_mem_nil _)⟩

theorem kept_of_ofObject (hkeys : (Json.object o).HasDistinctKeys)
    (honce : o.SpellsOnce HtmlFlag.spellings) (hread : ofObject o = .ok h) : h.Kept := by
  have hextras := ((ofObject_eq_ok_iff honce).1 hread).2
  constructor
  · rw [hextras]
    exact List.filter_eq_self.2 fun m hm => (List.mem_filter.1 hm).2
  · rw [hextras]
    exact hkeys.filter _

namespace Kept

variable (hkept : h.Kept)
include hkept

theorem get?_extras {p : Spelling} (hp : p ∈ HtmlFlag.spellings) {key : Text}
    (hnames : p.names key = true) : h.extras.get? key = none := by
  rw [← hkept.extras]
  exact Object.get?_extras hp hnames

theorem plain_toObject : Plain h.toObject := by
  intro p hp
  have hflags : h.flags.get? p.snakeKey = none := by
    rw [Table.get?_eq_none_iff, map_fst_flags]
    intro hkey
    obtain ⟨q, hq, heq⟩ := List.mem_map.1 hkey
    exact HtmlFlag.respells.key_ne_snakeKey hq hp heq
  rw [toObject_eq, Table.get?_append, hflags, hkept.get?_extras hp (Spelling.names_iff.2 (.inr rfl))]
  rfl

theorem extras_toObject : h.toObject.extras HtmlFlag.spellings = h.extras := by
  calc h.toObject.extras HtmlFlag.spellings
      = h.flags.extras HtmlFlag.spellings ++ h.extras.extras HtmlFlag.spellings :=
        List.filter_append _ _
    _ = h.extras := by rw [extras_flags, hkept.extras, List.nil_append]

theorem hasDistinctKeys_toObject : (Json.object h.toObject).HasDistinctKeys := by
  rw [toObject_eq]
  apply Json.HasDistinctKeys.object
  · rw [List.map_append, List.nodup_append]
    refine ⟨h.nodup_flags, hkept.distinct.keys, ?_⟩
    intro key hkey other hother heq
    rw [map_fst_flags] at hkey
    obtain ⟨p, hp, rfl⟩ := List.mem_map.1 hkey
    have hnone := hkept.get?_extras hp (Spelling.names_iff.2 (.inl heq.symm))
    exact Table.get?_eq_none_iff.1 hnone hother
  · intro m hm
    rcases List.mem_append.1 hm with hm | hm
    · obtain ⟨f, -, rfl⟩ := List.mem_map.1 hm
      exact .leaf rfl
    · exact hkept.distinct.value (Table.get?_of_mem hkept.distinct.keys hm)

theorem ofObject_toObject : ofObject h.toObject = .ok h := by
  rw [ofObject_eq_ok_iff hkept.plain_toObject.spellsOnce, hkept.extras_toObject]
  refine ⟨?_, rfl⟩
  intro f
  rw [Object.setting, Object.given?, show h.toObject.get? f.spelling.key = _ from
    h.get?_toObject_key f]
  rfl

end Kept

/-! ### Merging onto the defaults and spelling in one way -/

/-- Options that are merged onto the defaults are read as they are read without them. -/
theorem ofObject_merge (hkeys : (Json.object members).HasDistinctKeys) (hplain : Plain members) :
    ofObject (Object.merge ({} : HtmlOptions).toObject members) = .ok h ↔
      ofObject members = .ok h := by
  have hdefault := kept_default.plain_toObject
  have hmerged : Plain (Object.merge ({} : HtmlOptions).toObject members) := by
    intro p hp
    rw [Object.get?_merge_of_none (hplain p hp), hdefault p hp]
  have hextras : (Object.merge ({} : HtmlOptions).toObject members).extras HtmlFlag.spellings =
      members.extras HtmlFlag.spellings := Object.extras_merge kept_default.extras_toObject hkeys
  have hsetting (f : HtmlFlag) := Object.setting_merge (p := f.spelling) hkeys.keys
    (hplain _ f.spelling_mem) (get?_toObject_key {} f) (hdefault _ f.spelling_mem)
  rw [ofObject_eq_ok_iff hmerged.spellsOnce, ofObject_eq_ok_iff hplain.spellsOnce, hextras]
  simp only [hsetting]

section Normalize

variable (hkeys : (Json.object members).HasDistinctKeys)
  (honce : members.SpellsOnce HtmlFlag.spellings)
include hkeys honce

theorem normalize_eq : normalize members = members.respell HtmlFlag.keyOf Prod.snd := by
  have hnodup := HtmlFlag.respells.nodup_respell Prod.snd hkeys.keys honce
  exact Table.update_eq_append hnodup fun _ _ => rfl

theorem plain_normalize : Plain (normalize members) := by
  intro p hp
  rw [normalize_eq hkeys honce]
  exact HtmlFlag.respells.get?_respell_snakeKey _ hp

theorem hasDistinctKeys_normalize : (Json.object (normalize members)).HasDistinctKeys := by
  rw [normalize_eq hkeys honce]
  apply Json.HasDistinctKeys.object (HtmlFlag.respells.nodup_respell _ hkeys.keys honce)
  intro m hm
  obtain ⟨n, hn, rfl⟩ := List.mem_map.1 hm
  exact hkeys.value (Table.get?_of_mem hkeys.keys hn)

theorem ofObject_normalize : ofObject (normalize members) = .ok h ↔ ofObject members = .ok h := by
  have hgiven (f : HtmlFlag) :
      (normalize members).given? f.spelling = members.given? f.spelling := by
    rw [normalize_eq hkeys honce]
    exact HtmlFlag.respells.given?_respell _ hkeys.keys honce f.spelling_mem fun _ _ _ => rfl
  have hextras : (normalize members).extras HtmlFlag.spellings =
      members.extras HtmlFlag.spellings := by
    rw [normalize_eq hkeys honce]
    exact HtmlFlag.respells.extras_respell members
  rw [ofObject_eq_ok_iff (plain_normalize hkeys honce).spellsOnce, ofObject_eq_ok_iff honce,
    hextras]
  simp only [Object.setting, hgiven]

end Normalize

end HtmlOptions

end Stencil
