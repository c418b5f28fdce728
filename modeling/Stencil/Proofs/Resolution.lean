import Stencil.Proofs.MinifierOptions

/-!
# Options that are asked for

Options can be read from an object as it is, or resolved: spelled in one way, merged onto the
defaults and read then. Merging onto the defaults gives every option that is missing its default,
which is what reading gives it anyway, and it keeps the members that give no option, so both ways
come to the same options. These are spelled in one way in turn, so they can be resolved again
without a change.
-/

namespace Stencil

theorem Validated.apply_eq_ok_iff {α β : Type} {f : Validated (α → β)} {a : Validated α} {b : β} :
    Validated.apply f a = .ok b ↔ ∃ g x, f = .ok g ∧ a = .ok x ∧ g x = b := by
  cases f <;> cases a <;> simp [Validated.apply]

theorem exists_map_eq_some_iff {α β : Type} {a : Option α} {f : α → β} {P : β → Prop} {Q : α → Prop}
    (h : ∀ x, a = some x → (P (f x) ↔ Q x)) :
    (∃ y, a.map f = some y ∧ P y) ↔ ∃ x, a = some x ∧ Q x := by
  constructor
  · rintro ⟨_, hmap, hP⟩
    obtain ⟨x, hx, rfl⟩ := Option.map_eq_some_iff.1 hmap
    exact ⟨x, hx, (h x hx).1 hP⟩
  · rintro ⟨x, hx, hQ⟩
    exact ⟨f x, Option.map_eq_some_iff.2 ⟨x, hx, rfl⟩, (h x hx).2 hQ⟩

namespace Options

variable {o s members : Object} {r : Options} {h : HtmlOptions}

/-! ### Reading -/

/-- The members of the minifier's options, of which there are none if these are not given. -/
def htmlMembers? (o : Object) : Option Object := ((o.get? htmlKey).getD (.object [])).object?

theorem htmlMembers?_eq_some_iff : htmlMembers? o = some members ↔
    o.get? htmlKey = some (.object members) ∨ o.get? htmlKey = none ∧ members = [] := by
  rw [htmlMembers?]
  cases o.get? htmlKey with
  | none => simp [Json.object?, eq_comm]
  | some v => cases v <;> simp [Json.object?]

theorem hasDistinctKeys_of_htmlMembers? (hkeys : (Json.object o).HasDistinctKeys)
    (hmembers : htmlMembers? o = some members) : (Json.object members).HasDistinctKeys := by
  rcases htmlMembers?_eq_some_iff.1 hmembers with hget | ⟨-, rfl⟩
  · exact hkeys.value hget
  · exact .object List.nodup_nil nofun

theorem readHtml_eq_ok_iff : readHtml o = .ok h ↔
    ∃ members, htmlMembers? o = some members ∧ HtmlOptions.ofObject members = .ok h := by
  rw [readHtml, htmlMembers?]
  cases o.get? htmlKey with
  | none => simp [Json.object?, HtmlOptions.ofObject_nil]
  | some v =>
      cases v with
      | object members =>
          cases hread : HtmlOptions.ofObject members <;>
            simp [HtmlOptions.ofJson, Json.object?, hread]
      | null | bool _ | int _ | real _ | string _ | array _ =>
          simp [HtmlOptions.ofJson, Json.object?]

theorem ofObject_eq_ok_iff : ofObject o = .ok r ↔
    o.setting minifySpelling false = .ok r.minify ∧
      o.setting multiLineSpelling false = .ok r.minifyMultiLine ∧
        ∃ members, htmlMembers? o = some members ∧
          HtmlOptions.ofObject members = .ok r.html := by
  rw [← Object.readFlag_eq_ok_iff, ← Object.readFlag_eq_ok_iff, ← readHtml_eq_ok_iff]
  simp only [ofObject, Validated.apply_eq_ok_iff]
  constructor
  · rintro ⟨_, html, ⟨_, multiLine, ⟨make, minify, hmake, hminify, rfl⟩, hmultiLine, rfl⟩,
      hhtml, rfl⟩
    obtain rfl := Except.ok.inj hmake
    exact ⟨hminify, hmultiLine, hhtml⟩
  · rintro ⟨hminify, hmultiLine, hhtml⟩
    exact ⟨_, r.html, ⟨_, r.minifyMultiLine, ⟨_, r.minify, rfl, hminify, rfl⟩, hmultiLine, rfl⟩,
      hhtml, rfl⟩

/-! ### Merging onto the defaults -/

/-- Every key is the first one of its option, also in the minifier's options. -/
structure Plain (o : Object) : Prop where
  distinct : (Json.object o).HasDistinctKeys
  options : ∀ p ∈ spellings, o.get? p.snakeKey = none
  html : ∀ members, htmlMembers? o = some members → HtmlOptions.Plain members

private theorem htmlMembers?_merge (hs : (s.map Prod.fst).Nodup) :
    htmlMembers? (Object.merge ({} : Options).toObject s) =
      (htmlMembers? s).map (Object.merge ({} : HtmlOptions).toObject) := by
  have hdefault : ({} : Options).toObject.get? htmlKey =
      some (.object ({} : HtmlOptions).toObject) := rfl
  rw [htmlMembers?, htmlMembers?]
  cases hget : s.get? htmlKey with
  | none =>
      rw [Object.get?_merge_of_none hget, hdefault]
      rfl
  | some v =>
      rw [Object.get?_merge_of_some hs hget, hdefault]
      cases v <;> simp [Json.mergeInto, Json.object?, Object.merge]

theorem overDefaults_eq_ok_iff (hplain : Plain s) :
    overDefaults s = .ok r ↔ ofObject s = .ok r := by
  have hminify := Object.setting_merge (p := minifySpelling) (t := ({} : Options).toObject)
    hplain.distinct.keys (hplain.options _ minifySpelling_mem) rfl rfl
  have hmultiLine := Object.setting_merge (p := multiLineSpelling) (t := ({} : Options).toObject)
    hplain.distinct.keys (hplain.options _ multiLineSpelling_mem) rfl rfl
  rw [overDefaults, ofObject_eq_ok_iff, ofObject_eq_ok_iff, hminify, hmultiLine,
    htmlMembers?_merge hplain.distinct.keys]
  refine and_congr_right fun _ => and_congr_right fun _ => exists_map_eq_some_iff ?_
  intro members hmembers
  have hkeys := hasDistinctKeys_of_htmlMembers? hplain.distinct hmembers
  exact HtmlOptions.ofObject_merge hkeys (hplain.html members hmembers)

/-! ### Spelling in one way -/

/-- No option is given under both of its keys, and no option of the minifier is. -/
structure SpelledOnce (o : Object) : Prop where
  options : o.SpellsOnce spellings
  html : ∀ members : Object, o.get? htmlKey = some (.object members) →
    members.SpellsOnce HtmlFlag.spellings

theorem SpelledOnce.htmlMembers (honce : SpelledOnce o) (hmembers : htmlMembers? o = some members) :
    members.SpellsOnce HtmlFlag.spellings := by
  rcases htmlMembers?_eq_some_iff.1 hmembers with hget | ⟨-, rfl⟩
  · exact honce.html _ hget
  · exact fun _ _ => .inl rfl

theorem Plain.spelledOnce (hplain : Plain o) : SpelledOnce o := by
  constructor
  · intro p hp
    exact .inr (hplain.options p hp)
  · intro members hget
    exact (hplain.html members (htmlMembers?_eq_some_iff.2 (.inl hget))).spellsOnce

theorem not_names_htmlKey : ∀ p ∈ spellings, p.names htmlKey = false := by decide

theorem normalizeValue_of_ne {key : Text} (hkey : key ≠ htmlKey) (v : Json) :
    normalizeValue key v = v := by
  cases v with
  | object members => rw [normalizeValue, if_neg hkey]
  | null | bool _ | int _ | real _ | string _ | array _ => rfl

section Normalize

variable (hkeys : (Json.object o).HasDistinctKeys) (honce : SpelledOnce o)
include hkeys honce

theorem normalize_eq : normalize o = o.respell keyOf fun m => normalizeValue m.1 m.2 := by
  have hnodup := respells.nodup_respell (fun m => normalizeValue m.1 m.2) hkeys.keys honce.options
  exact Table.update_eq_append hnodup fun _ _ => rfl

private theorem get?_normalize_htmlKey :
    (normalize o).get? htmlKey = (o.get? htmlKey).map (normalizeValue htmlKey) := by
  rw [normalize_eq hkeys honce]
  exact respells.get?_respell_of_not_names _ not_names_htmlKey o

theorem htmlMembers?_normalize :
    htmlMembers? (normalize o) = (htmlMembers? o).map HtmlOptions.normalize := by
  rw [htmlMembers?, htmlMembers?, get?_normalize_htmlKey hkeys honce]
  cases o.get? htmlKey with
  | none => rfl
  | some v =>
      cases v with
      | object members =>
          rw [Option.map_some, normalizeValue, if_pos rfl]
          rfl
      | null | bool _ | int _ | real _ | string _ | array _ => rfl

theorem hasDistinctKeys_normalize : (Json.object (normalize o)).HasDistinctKeys := by
  rw [normalize_eq hkeys honce]
  apply Json.HasDistinctKeys.object (respells.nodup_respell _ hkeys.keys honce.options)
  intro m hm
  obtain ⟨⟨key, v⟩, hn, rfl⟩ := List.mem_map.1 hm
  have hget := Table.get?_of_mem hkeys.keys hn
  have hv := hkeys.value hget
  change (normalizeValue key v).HasDistinctKeys
  by_cases hkey : key = htmlKey
  · rw [hkey] at hget ⊢
    cases v with
    | object members => exact HtmlOptions.hasDistinctKeys_normalize hv (honce.html members hget)
    | null | bool _ | int _ | real _ | string _ | array _ => exact hv
  · rw [normalizeValue_of_ne hkey]
    exact hv

theorem plain_normalize : Plain (normalize o) := by
  refine ⟨hasDistinctKeys_normalize hkeys honce, ?_, ?_⟩
  · intro p hp
    rw [normalize_eq hkeys honce]
    exact respells.get?_respell_snakeKey _ hp
  · intro _ hnormal
    rw [htmlMembers?_normalize hkeys honce] at hnormal
    obtain ⟨members, hmembers, rfl⟩ := Option.map_eq_some_iff.1 hnormal
    exact HtmlOptions.plain_normalize (hasDistinctKeys_of_htmlMembers? hkeys hmembers)
      (honce.htmlMembers hmembers)

theorem ofObject_normalize : ofObject (normalize o) = .ok r ↔ ofObject o = .ok r := by
  have hsetting (p : Spelling) (hp : p ∈ spellings) :
      (normalize o).setting p false = o.setting p false := by
    rw [Object.setting, Object.setting, normalize_eq hkeys honce,
      respells.given?_respell _ hkeys.keys honce.options hp]
    intro m _ hnames
    apply normalizeValue_of_ne
    intro hkey
    rw [hkey, not_names_htmlKey p hp] at hnames
    cases hnames
  rw [ofObject_eq_ok_iff, ofObject_eq_ok_iff, hsetting _ minifySpelling_mem,
    hsetting _ multiLineSpelling_mem, htmlMembers?_normalize hkeys honce]
  refine and_congr_right fun _ => and_congr_right fun _ => exists_map_eq_some_iff ?_
  intro members hmembers
  exact HtmlOptions.ofObject_normalize (hasDistinctKeys_of_htmlMembers? hkeys hmembers)
    (honce.htmlMembers hmembers)

theorem resolve_eq_ok_iff : resolve o = .ok r ↔ ofObject o = .ok r := by
  rw [resolve, overDefaults_eq_ok_iff (plain_normalize hkeys honce), ofObject_normalize hkeys honce]

theorem kept_of_ofObject (hread : ofObject o = .ok r) : r.html.Kept := by
  obtain ⟨-, -, members, hmembers, hread⟩ := ofObject_eq_ok_iff.1 hread
  exact HtmlOptions.kept_of_ofObject (hasDistinctKeys_of_htmlMembers? hkeys hmembers)
    (honce.htmlMembers hmembers) hread

end Normalize

/-! ### Options as an object -/

theorem plain_toObject (hkept : r.html.Kept) : Plain r.toObject := by
  refine ⟨?_, List.forall_mem_cons.2 ⟨rfl, List.forall_mem_singleton.2 rfl⟩, ?_⟩
  · apply Json.HasDistinctKeys.object
    · change [minifyKey, multiLineKey, htmlKey].Nodup
      decide
    · refine List.forall_mem_cons.2 ⟨.leaf rfl, List.forall_mem_cons.2 ⟨.leaf rfl, ?_⟩⟩
      exact List.forall_mem_singleton.2 hkept.hasDistinctKeys_toObject
  · intro members hmembers
    obtain rfl : r.html.toObject = members := Option.some.inj hmembers
    exact hkept.plain_toObject

theorem ofObject_toObject (hkept : r.html.Kept) : ofObject r.toObject = .ok r :=
  ofObject_eq_ok_iff.2 ⟨rfl, rfl, r.html.toObject, rfl, hkept.ofObject_toObject⟩

private theorem resolveOptions_eq (hkept : r.html.Kept) : resolveOptions r = .ok r :=
  (overDefaults_eq_ok_iff (plain_toObject hkept)).2 (ofObject_toObject hkept)

theorem resolve_toObject (hkept : r.html.Kept) : resolve r.toObject = .ok r := by
  have hplain := plain_toObject hkept
  exact (resolve_eq_ok_iff hplain.distinct hplain.spelledOnce).2 (ofObject_toObject hkept)

end Options

/-! ### Other spellings -/

/-- The members of one object are those of the other, but for which key of an option they are
under. -/
def HtmlOptions.Respelled : Object → Object → Prop :=
  List.Forall₂ fun m n => SameOption HtmlFlag.spellings m.1 n.1 ∧ m.2 = n.2

theorem HtmlOptions.Respelled.normalize_eq {o o' : Object} (h : Respelled o o') :
    normalize o = normalize o' := by
  apply congrArg (Table.update [])
  rw [← List.forall₂_eq_eq_eq, List.forall₂_map_left_iff, List.forall₂_map_right_iff]
  refine h.imp ?_
  rintro m n ⟨hkey, hvalue⟩
  rw [HtmlFlag.respells.keyOf_eq_iff.2 hkey, hvalue]

namespace Options

/-- The members of one object are those of the other, but for which key of an option they are
under, and but for that in the minifier's options. -/
def Respelled : Object → Object → Prop :=
  List.Forall₂ fun m n => SameOption spellings m.1 n.1 ∧
    (m.2 = n.2 ∨ m.1 = htmlKey ∧ ∃ members others, m.2 = .object members ∧ n.2 = .object others ∧
      HtmlOptions.Respelled members others)

private theorem eq_htmlKey_of_sameOption {key other : Text} (h : SameOption spellings key other) :
    key = htmlKey ↔ other = htmlKey := by
  rcases h with rfl | ⟨p, hp, hkey, hother⟩
  · rfl
  · have hne {k : Text} (hnames : p.names k = true) : k ≠ htmlKey := by
      rintro rfl
      rw [not_names_htmlKey p hp] at hnames
      cases hnames
    exact iff_of_false (hne hkey) (hne hother)

theorem Respelled.normalize_eq {o o' : Object} (h : Respelled o o') :
    normalize o = normalize o' := by
  apply congrArg (Table.update [])
  rw [← List.forall₂_eq_eq_eq, List.forall₂_map_left_iff, List.forall₂_map_right_iff]
  refine h.imp ?_
  rintro ⟨key, v⟩ ⟨other, w⟩ ⟨hkey, hvalue⟩
  have hhtml : key = htmlKey ↔ other = htmlKey := eq_htmlKey_of_sameOption hkey
  have hnormal : normalizeValue key v = normalizeValue other w := by
    rcases hvalue with rfl | ⟨rfl, members, others, rfl, rfl, hmembers⟩
    · by_cases h : key = htmlKey
      · rw [h, hhtml.1 h]
      · rw [normalizeValue_of_ne h, normalizeValue_of_ne (mt hhtml.2 h)]
    · rw [hhtml.1 rfl, normalizeValue, normalizeValue, if_pos rfl, if_pos rfl,
        hmembers.normalize_eq]
  rw [respells.keyOf_eq_iff.2 hkey, hnormal]

end Options

/-! ### What is asked for -/

/-- Every option of the minifier is as the object sets it, and the members that give none are
kept as they are. -/
structure HtmlOptions.Reflects (h : HtmlOptions) (members : Object) : Prop where
  flags : ∀ f : HtmlFlag, members.Sets f.spelling f.default (h.flag f)
  extras : h.extras = members.extras HtmlFlag.spellings

theorem HtmlOptions.reflects_iff {h : HtmlOptions} {members : Object}
    (hkeys : (Json.object members).HasDistinctKeys)
    (honce : members.SpellsOnce HtmlFlag.spellings) :
    h.Reflects members ↔ ofObject members = .ok h := by
  have hsets (f : HtmlFlag) : members.Sets f.spelling f.default (h.flag f) ↔
      members.setting f.spelling f.default = .ok (h.flag f) :=
    Object.sets_iff hkeys.keys (honce _ f.spelling_mem)
  rw [ofObject_eq_ok_iff honce]
  constructor
  · intro hreflects
    exact ⟨fun f => (hsets f).1 (hreflects.flags f), hreflects.extras⟩
  · rintro ⟨hflags, hextras⟩
    exact ⟨fun f => (hsets f).2 (hflags f), hextras⟩

namespace Options

variable {o : Object} {r : Options}

/-- Every option is as the object sets it, those of the minifier as the object in it does. -/
structure Reflects (r : Options) (o : Object) : Prop where
  minify : o.Sets minifySpelling false r.minify
  minifyMultiLine : o.Sets multiLineSpelling false r.minifyMultiLine
  html : ∃ members, htmlMembers? o = some members ∧ r.html.Reflects members

theorem resolveJson_object (o : Object) :
    resolveJson (.object o) = (resolve o).mapError Fault.invalid := by
  have hmembers :
      (if (Json.object o).isGiven then (Json.object o).object? else some []) = some o := by
    cases o <;> rfl
  rw [resolveJson, hmembers]
  dsimp only
  cases resolve o <;> rfl

theorem resolveJson_object_eq_ok_iff : resolveJson (.object o) = .ok r ↔ resolve o = .ok r := by
  rw [resolveJson_object]
  cases resolve o <;> simp [Except.mapError]

section Once

variable (hkeys : (Json.object o).HasDistinctKeys) (honce : SpelledOnce o)
include hkeys honce

theorem reflects_iff : r.Reflects o ↔ ofObject o = .ok r := by
  have hsets (p : Spelling) (hp : p ∈ spellings) (b : Bool) :
      o.Sets p false b ↔ o.setting p false = .ok b :=
    Object.sets_iff hkeys.keys (honce.options p hp)
  have hhtml (members : Object) (hmembers : htmlMembers? o = some members) :
      r.html.Reflects members ↔ HtmlOptions.ofObject members = .ok r.html :=
    HtmlOptions.reflects_iff (hasDistinctKeys_of_htmlMembers? hkeys hmembers)
      (honce.htmlMembers hmembers)
  rw [ofObject_eq_ok_iff, ← hsets _ minifySpelling_mem, ← hsets _ multiLineSpelling_mem]
  constructor
  · rintro ⟨hminify, hmultiLine, members, hmembers, hreflects⟩
    exact ⟨hminify, hmultiLine, members, hmembers, (hhtml members hmembers).1 hreflects⟩
  · rintro ⟨hminify, hmultiLine, members, hmembers, hread⟩
    exact ⟨hminify, hmultiLine, members, hmembers, (hhtml members hmembers).2 hread⟩

theorem resolveJson_eq_ok_iff : resolveJson (.object o) = .ok r ↔ ofObject o = .ok r := by
  rw [resolveJson_object_eq_ok_iff, resolve_eq_ok_iff hkeys honce]

/-- Options are resolved if they can be read, and to the options that are read. These are resolved
to themselves, as options and as an object. Under which of its keys an option is given makes no
difference, also for what is wrong with it. The options are as the object sets them, and the members
of the minifier's options that give none are kept. -/
theorem resolveJson_agrees :
    (∀ r, resolveJson (.object o) = .ok r ↔ ofJson (.object o) = .ok r) ∧
    (∀ r, resolveJson (.object o) = .ok r →
      resolveOptions r = .ok r ∧ resolveJson (.object r.toObject) = .ok r) ∧
    (∀ o', Respelled o o' → resolveJson (.object o') = resolveJson (.object o)) ∧
    ∀ r, resolveJson (.object o) = .ok r ↔ r.Reflects o := by
  refine ⟨?_, ?_, ?_, ?_⟩
  · intro r
    exact resolveJson_eq_ok_iff hkeys honce
  · intro r hresolve
    have hkept := kept_of_ofObject hkeys honce ((resolveJson_eq_ok_iff hkeys honce).1 hresolve)
    exact ⟨resolveOptions_eq hkept, resolveJson_object_eq_ok_iff.2 (resolve_toObject hkept)⟩
  · intro o' hrespelled
    rw [resolveJson_object, resolveJson_object, resolve, resolve, hrespelled.normalize_eq]
  · intro r
    rw [resolveJson_eq_ok_iff hkeys honce, reflects_iff hkeys honce]

end Once

/-- Two options in snake case, one of them of the minifier, beside a member that gives none. -/
theorem resolveJson_agrees_snake :
    let o : Object := [("htmlmin_enable".toList, .string "yes".toList),
      ("htmlmin".toList, .object [("remove_comments".toList, .int 0),
        ("foo".toList, .object [("a".toList, .null)])])]
    let o' : Object := [("htmlminEnable".toList, .string "yes".toList),
      ("htmlmin".toList, .object [("removeComments".toList, .int 0),
        ("foo".toList, .object [("a".toList, .null)])])]
    (Json.object o).HasDistinctKeys ∧ SpelledOnce o ∧
      ∃ r, ofJson (.object o) = .ok r ∧ resolveJson (.object o) = .ok r ∧
        resolveOptions r = .ok r ∧ resolveJson (.object o') = .ok r ∧ r.Reflects o ∧
        r.minify = true ∧ r.html.flag .removeComments = false ∧
        r.html.extras = [("foo".toList, .object [("a".toList, .null)])] := by
  intro o o'
  have hfoo : (Json.object [("a".toList, .null)]).HasDistinctKeys :=
    .object (by decide) (List.forall_mem_singleton.2 (.leaf rfl))
  have hmembers : (Json.object [("remove_comments".toList, .int 0),
      ("foo".toList, .object [("a".toList, .null)])]).HasDistinctKeys :=
    .object (by decide)
      (List.forall_mem_cons.2 ⟨.leaf rfl, List.forall_mem_singleton.2 hfoo⟩)
  have hkeys : (Json.object o).HasDistinctKeys :=
    .object (by decide)
      (List.forall_mem_cons.2 ⟨.leaf rfl, List.forall_mem_singleton.2 hmembers⟩)
  have honce : SpelledOnce o := by
    constructor
    · decide
    · intro members hget
      obtain rfl := Json.object.inj (Option.some.inj hget)
      decide
  have hrespelled : Respelled o o' := by
    refine .cons ⟨.inr ⟨_, minifySpelling_mem, rfl, rfl⟩, .inl rfl⟩
      (.cons ⟨.inl rfl, .inr ⟨rfl, _, _, rfl, rfl, ?_⟩⟩ .nil)
    refine .cons ⟨.inr ⟨_, HtmlFlag.spelling_mem .removeComments, rfl, rfl⟩, rfl⟩ ?_
    exact .cons ⟨.inl rfl, rfl⟩ .nil
  obtain ⟨hread, hagain, hother, hreflects⟩ := resolveJson_agrees hkeys honce
  have hresolve : resolveJson (.object o) = .ok _ := (hread _).2 rfl
  exact ⟨hkeys, honce, _, rfl, hresolve, (hagain _ hresolve).1,
    (hother o' hrespelled).trans hresolve, (hreflects _).1 hresolve, rfl, rfl, rfl⟩

end Options

end Stencil
