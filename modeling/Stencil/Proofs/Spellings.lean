import Stencil.Options.Read
import Stencil.Proofs.Tables

/-!
# Options under two keys

An option has two keys, and no key belongs to two options. In an object that gives no option under
both of its keys, what an option is set to does not depend on which of them is used: spelling every
key in the first way keeps the keys distinct and what they give.
-/

namespace Stencil

/-! ### Spellings -/

/-- The two keys of an option. -/
structure Spelling where
  key : Text
  snakeKey : Text

def Spelling.names (p : Spelling) (key : Text) : Bool := key == p.key || key == p.snakeKey

theorem Spelling.names_iff {p : Spelling} {key : Text} :
    p.names key = true ↔ key = p.key ∨ key = p.snakeKey := by
  rw [names, Bool.or_eq_true, beq_iff_eq, beq_iff_eq]

def HtmlFlag.spelling (f : HtmlFlag) : Spelling := ⟨f.key, f.snakeKey⟩

def HtmlFlag.spellings : List Spelling := HtmlFlag.all.map HtmlFlag.spelling

def Options.minifySpelling : Spelling := ⟨minifyKey, minifySnakeKey⟩

def Options.multiLineSpelling : Spelling := ⟨multiLineKey, multiLineSnakeKey⟩

/-- The keys of the options of a compilation that have two keys. -/
def Options.spellings : List Spelling := [minifySpelling, multiLineSpelling]

theorem Options.minifySpelling_mem : minifySpelling ∈ spellings := List.mem_cons_self

theorem Options.multiLineSpelling_mem : multiLineSpelling ∈ spellings :=
  List.mem_cons_of_mem _ List.mem_cons_self

def SameOption (ps : List Spelling) (a b : Text) : Prop :=
  a = b ∨ ∃ p ∈ ps, p.names a = true ∧ p.names b = true

/-- A function on keys that gives the first key of an option for the second one, and any other key
as it is. -/
structure Respells (keyOf : Text → Text) (ps : List Spelling) : Prop where
  distinct : (ps.map Spelling.key ++ ps.map Spelling.snakeKey).Nodup
  snake : ∀ p ∈ ps, keyOf p.snakeKey = p.key
  other : ∀ key, (∀ p ∈ ps, key ≠ p.snakeKey) → keyOf key = key

namespace Respells

variable {keyOf : Text → Text} {ps : List Spelling} (hr : Respells keyOf ps) {p : Spelling}
include hr

theorem key_ne_snakeKey {q : Spelling} (hp : p ∈ ps) (hq : q ∈ ps) : p.key ≠ q.snakeKey :=
  (List.nodup_append.1 hr.distinct).2.2 _ (List.mem_map_of_mem hp) _ (List.mem_map_of_mem hq)

theorem eq_of_key_eq {q : Spelling} (hp : p ∈ ps) (hq : q ∈ ps) (h : p.key = q.key) : p = q :=
  List.inj_on_of_nodup_map (List.nodup_append.1 hr.distinct).1 hp hq h

theorem keyOf_eq_key_iff (hp : p ∈ ps) {key : Text} : keyOf key = p.key ↔ p.names key = true := by
  rw [Spelling.names_iff]
  constructor
  · intro h
    by_cases hsnake : ∃ q ∈ ps, key = q.snakeKey
    · obtain ⟨q, hq, rfl⟩ := hsnake
      rw [hr.snake q hq] at h
      rw [hr.eq_of_key_eq hq hp h]
      exact .inr rfl
    · rw [hr.other key (by simpa using hsnake)] at h
      exact .inl h
  · rintro (rfl | rfl)
    · exact hr.other _ fun q hq => hr.key_ne_snakeKey hp hq
    · exact hr.snake p hp

theorem keyOf_ne_snakeKey (hp : p ∈ ps) (key : Text) : keyOf key ≠ p.snakeKey := by
  by_cases hsnake : ∃ q ∈ ps, key = q.snakeKey
  · obtain ⟨q, hq, rfl⟩ := hsnake
    rw [hr.snake q hq]
    exact hr.key_ne_snakeKey hq hp
  · have hother : ∀ q ∈ ps, key ≠ q.snakeKey := by simpa using hsnake
    rw [hr.other key hother]
    exact hother p hp

theorem keyOf_of_not_names {key : Text} (h : ∀ p ∈ ps, p.names key = false) : keyOf key = key := by
  apply hr.other
  intro p hp hsnake
  have hnames := Spelling.names_iff.2 (Or.inr hsnake)
  rw [h p hp] at hnames
  cases hnames

theorem keyOf_eq_iff {a b : Text} : keyOf a = keyOf b ↔ SameOption ps a b := by
  by_cases ha : ∃ p ∈ ps, p.names a = true
  · obtain ⟨p, hp, hname⟩ := ha
    have hkey := (hr.keyOf_eq_key_iff hp).2 hname
    rw [hkey, eq_comm, hr.keyOf_eq_key_iff hp]
    constructor
    · intro hb
      exact .inr ⟨p, hp, hname, hb⟩
    · rintro (rfl | ⟨q, hq, hqa, hqb⟩)
      · exact hname
      · rwa [← hr.eq_of_key_eq hq hp (((hr.keyOf_eq_key_iff hq).2 hqa).symm.trans hkey)]
  · have hnone : ∀ p ∈ ps, p.names a = false := by simpa using ha
    rw [hr.keyOf_of_not_names hnone]
    constructor
    · intro hb
      by_cases hnames : ∃ p ∈ ps, p.names b = true
      · obtain ⟨p, hp, hname⟩ := hnames
        rw [(hr.keyOf_eq_key_iff hp).2 hname] at hb
        have hfirst := Spelling.names_iff.2 (Or.inl hb)
        rw [hnone p hp] at hfirst
        cases hfirst
      · exact .inl (hb.trans (hr.keyOf_of_not_names (by simpa using hnames)))
    · rintro (rfl | ⟨p, hp, hname, -⟩)
      · exact (hr.keyOf_of_not_names hnone).symm
      · rw [hnone p hp] at hname
        cases hname

end Respells

theorem HtmlFlag.nodup_keys :
    (spellings.map Spelling.key ++ spellings.map Spelling.snakeKey).Nodup := by
  decide +kernel

theorem HtmlFlag.snakeKey_injective {f g : HtmlFlag} (h : f.snakeKey = g.snakeKey) : f = g := by
  have hnodup := (List.nodup_append.1 nodup_keys).2.1
  rw [spellings, List.map_map] at hnodup
  exact List.inj_on_of_nodup_map hnodup f.mem_all g.mem_all h

theorem HtmlFlag.respells : Respells HtmlFlag.keyOf HtmlFlag.spellings := by
  refine ⟨nodup_keys, ?_, ?_⟩
  · intro p hp
    obtain ⟨f, hf, rfl⟩ := List.mem_map.1 hp
    change keyOf f.snakeKey = f.key
    rw [keyOf]
    split
    · next g hfind =>
        have hsnake := List.find?_some hfind
        rw [beq_iff_eq] at hsnake
        rw [snakeKey_injective hsnake]
    · next hfind =>
        have hne := List.find?_eq_none.1 hfind f hf
        exact absurd BEq.rfl hne
  · intro key hkey
    rw [keyOf]
    split
    · next f hfind =>
        have hsnake := List.find?_some hfind
        rw [beq_iff_eq] at hsnake
        exact absurd hsnake.symm (hkey f.spelling (List.mem_map_of_mem f.mem_all))
    · rfl

theorem Options.respells : Respells Options.keyOf Options.spellings := by
  refine ⟨by decide, by decide, ?_⟩
  intro key hkey
  have hminify : key ≠ minifySnakeKey := hkey _ minifySpelling_mem
  have hmultiLine : key ≠ multiLineSnakeKey := hkey _ multiLineSpelling_mem
  rw [keyOf, if_neg hminify, if_neg hmultiLine]

/-! ### What an object gives an option -/

namespace Object

/-- No option is given under both of its keys. -/
def SpellsOnce (ps : List Spelling) (o : Object) : Prop :=
  ∀ p ∈ ps, o.get? p.key = none ∨ o.get? p.snakeKey = none

instance (ps : List Spelling) (o : Object) : Decidable (o.SpellsOnce ps) :=
  inferInstanceAs (Decidable (∀ p ∈ ps, _ ∨ _))

/-- The members that give none of the options. -/
def extras (ps : List Spelling) (o : Object) : Object :=
  o.filter fun m => !ps.any fun p => p.names m.1

/-- The value that an option is given, under the first key before the second one. -/
def given? (o : Object) (p : Spelling) : Option Json := (o.get? p.key).or (o.get? p.snakeKey)

/-- What an option is on or off by, its default if it is not given. -/
def setting (o : Object) (p : Spelling) (default : Bool) : Except Finding Bool :=
  (o.given? p).elim (.ok default) Json.toBool

/-- The option is on or off as the value says that it is given under either key, and as its default
says if there is no such value. -/
structure Sets (o : Object) (p : Spelling) (default b : Bool) : Prop where
  given : ∀ v, (p.key, v) ∈ o ∨ (p.snakeKey, v) ∈ o → v.toBool = .ok b
  missing : p.key ∉ o.map Prod.fst → p.snakeKey ∉ o.map Prod.fst → b = default

variable {o : Object} {p : Spelling} {default b : Bool} {v : Json}

theorem given?_eq_some_iff (hkeys : (o.map Prod.fst).Nodup)
    (honce : o.get? p.key = none ∨ o.get? p.snakeKey = none) :
    o.given? p = some v ↔ (p.key, v) ∈ o ∨ (p.snakeKey, v) ∈ o := by
  rw [← Table.get?_eq_some_iff hkeys, ← Table.get?_eq_some_iff hkeys, given?]
  rcases honce with h | h
  · rw [h]
    simp
  · rw [h]
    simp

theorem given?_eq_none_iff :
    o.given? p = none ↔ p.key ∉ o.map Prod.fst ∧ p.snakeKey ∉ o.map Prod.fst := by
  rw [given?, Option.or_eq_none_iff, Table.get?_eq_none_iff, Table.get?_eq_none_iff]

theorem sets_iff (hkeys : (o.map Prod.fst).Nodup)
    (honce : o.get? p.key = none ∨ o.get? p.snakeKey = none) :
    o.Sets p default b ↔ o.setting p default = .ok b := by
  rw [setting]
  cases hgiven : o.given? p with
  | none =>
      obtain ⟨hkey, hsnake⟩ := given?_eq_none_iff.1 hgiven
      constructor
      · intro h
        rw [h.missing hkey hsnake]
        rfl
      · intro h
        refine ⟨?_, fun _ _ => (Except.ok.inj h).symm⟩
        intro v hv
        rw [(given?_eq_some_iff hkeys honce).2 hv] at hgiven
        cases hgiven
  | some v =>
      constructor
      · intro h
        exact h.given v ((given?_eq_some_iff hkeys honce).1 hgiven)
      · intro h
        refine ⟨?_, ?_⟩
        · intro w hw
          rw [(given?_eq_some_iff hkeys honce).2 hw] at hgiven
          rwa [Option.some.inj hgiven]
        · intro hkey hsnake
          rw [given?_eq_none_iff.2 ⟨hkey, hsnake⟩] at hgiven
          cases hgiven

theorem readFlag_eq_ok_iff :
    o.readFlag p.key p.snakeKey default = .ok b ↔ o.setting p default = .ok b := by
  have hreading (location : List Text) (reading : Except Finding Bool) :
      Validated.ofReading location reading = .ok b ↔ reading = .ok b := by
    cases reading <;> simp [Validated.ofReading]
  rw [readFlag, either?, setting, given?]
  cases o.get? p.key with
  | some v => exact hreading _ _
  | none =>
      cases o.get? p.snakeKey with
      | some v => exact hreading _ _
      | none => simp

end Object

/-! ### Respelled objects -/

/-- The object with other keys, and with values that are found from the members. -/
def Object.respell (keyOf : Text → Text) (value : Text × Json → Json) (o : Object) : Object :=
  o.map fun m => (keyOf m.1, value m)

namespace Respells

variable {keyOf : Text → Text} {ps : List Spelling} (hr : Respells keyOf ps) {o : Object}
  {p : Spelling} (value : Text × Json → Json)
include hr

private theorem names_keyOf (hp : p ∈ ps) (key : Text) : p.names (keyOf key) = p.names key := by
  rw [Bool.eq_iff_iff, Spelling.names_iff, hr.keyOf_eq_key_iff hp,
    or_iff_left (hr.keyOf_ne_snakeKey hp key)]

theorem extras_respell (o : Object) : (o.respell keyOf Prod.snd).extras ps = o.extras ps := by
  have hnames : ∀ key, (ps.any fun p => p.names (keyOf key)) = ps.any fun p => p.names key := by
    intro key
    rw [Bool.eq_iff_iff, List.any_eq_true, List.any_eq_true]
    apply exists_congr
    intro p
    apply and_congr_right
    intro hp
    rw [hr.names_keyOf hp]
  have hsame : ∀ m ∈ o.extras ps, (keyOf m.1, m.2) = m := by
    intro m hm
    have hnone := (List.mem_filter.1 hm).2
    rw [Bool.not_eq_true', List.any_eq_false] at hnone
    rw [hr.keyOf_of_not_names (by simpa using hnone)]
  calc (o.respell keyOf Prod.snd).extras ps
      = (o.filter fun m => !ps.any fun p => p.names (keyOf m.1)).map fun m => (keyOf m.1, m.2) :=
        List.filter_map
    _ = (o.extras ps).map fun m => (keyOf m.1, m.2) := by
        simp only [hnames]
        rfl
    _ = o.extras ps := (List.map_congr_left hsame).trans (List.map_id _)

/-- What stands under a key of no option keeps its key. -/
theorem get?_respell_of_not_names {key : Text} (h : ∀ p ∈ ps, p.names key = false) (o : Object) :
    (o.respell keyOf value).get? key = (o.get? key).map fun v => value (key, v) := by
  have hkey (other : Text) : keyOf other = key ↔ other = key := by
    nth_rewrite 1 [← hr.keyOf_of_not_names h]
    rw [hr.keyOf_eq_iff]
    constructor
    · rintro (hsame | ⟨p, hp, -, hnames⟩)
      · exact hsame
      · rw [h p hp] at hnames
        cases hnames
    · exact Or.inl
  induction o with
  | nil => rfl
  | cons m o ih =>
      change Table.get? ((keyOf m.1, value m) :: Object.respell keyOf value o) key = _
      rw [Table.get?_cons, Table.get?_cons, ih]
      by_cases hm : m.1 = key
      · rw [if_pos ((hkey m.1).2 hm), if_pos hm, ← hm]
        rfl
      · rw [if_neg (mt (hkey m.1).1 hm), if_neg hm]

theorem get?_respell_snakeKey (hp : p ∈ ps) : (o.respell keyOf value).get? p.snakeKey = none := by
  rw [Table.get?_eq_none_iff, Object.respell, List.map_map, List.mem_map]
  rintro ⟨m, -, heq⟩
  exact hr.keyOf_ne_snakeKey hp m.1 heq

section Once

variable (hkeys : (o.map Prod.fst).Nodup) (honce : o.SpellsOnce ps)
include hkeys honce

theorem nodup_respell : ((o.respell keyOf value).map Prod.fst).Nodup := by
  have hnodup : ((o.map Prod.fst).map keyOf).Nodup := by
    apply List.Nodup.map_on _ hkeys
    intro a ha b hb heq
    rcases hr.keyOf_eq_iff.1 heq with hsame | ⟨p, hp, hpa, hpb⟩
    · exact hsame
    · rw [Spelling.names_iff] at hpa hpb
      have hone := honce p hp
      rw [Table.get?_eq_none_iff, Table.get?_eq_none_iff] at hone
      rcases hpa with rfl | rfl <;> rcases hpb with rfl | rfl
      · rfl
      · exact absurd hb (hone.resolve_left (not_not_intro ha))
      · exact absurd ha (hone.resolve_left (not_not_intro hb))
      · rfl
  rw [List.map_map] at hnodup
  rw [Object.respell, List.map_map]
  exact hnodup

theorem given?_respell (hp : p ∈ ps) (hvalue : ∀ m ∈ o, p.names m.1 = true → value m = m.2) :
    (o.respell keyOf value).given? p = o.given? p := by
  have hnodup := hr.nodup_respell value hkeys honce
  have hsnake := hr.get?_respell_snakeKey (o := o) value hp
  apply Option.ext
  intro v
  rw [Object.given?_eq_some_iff hnodup (.inr hsnake), Object.given?_eq_some_iff hkeys (honce p hp)]
  have habsent : (p.snakeKey, v) ∉ o.respell keyOf value := by
    intro hmem
    rw [Table.get?_of_mem hnodup hmem] at hsnake
    cases hsnake
  have hmember (key : Text) (hnames : p.names key = true) (hmem : (key, v) ∈ o) :
      (p.key, v) ∈ o.respell keyOf value := by
    refine List.mem_map.2 ⟨_, hmem, ?_⟩
    rw [hvalue _ hmem hnames, (hr.keyOf_eq_key_iff hp).2 hnames]
  constructor
  · rintro (hmem | hmem)
    · obtain ⟨m, hm, heq⟩ := List.mem_map.1 hmem
      obtain ⟨hkey, rfl⟩ := Prod.mk.inj heq
      have hnames := (hr.keyOf_eq_key_iff hp).1 hkey
      rw [hvalue m hm hnames]
      rcases Spelling.names_iff.1 hnames with hkey | hkey
      · exact .inl (hkey ▸ hm)
      · exact .inr (hkey ▸ hm)
    · exact absurd hmem habsent
  · rintro (hmem | hmem)
    · exact .inl (hmember _ (Spelling.names_iff.2 (.inl rfl)) hmem)
    · exact .inl (hmember _ (Spelling.names_iff.2 (.inr rfl)) hmem)

end Once

end Respells

end Stencil
