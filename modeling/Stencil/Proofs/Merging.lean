import Stencil.Json.Merge
import Stencil.Proofs.Tables

/-!
# Merged objects, path by path

Merging an object into another looks at one key after the other, and inside two objects under one
key it starts again. If no object has a key twice, an object that is merged where there is none
stays as it is. So there are only two kinds of member to look at: one that is itself what the
merged object has, and an object that is merged with the members of what stood under its key, of
which there are none if that was no object. Each law for the value at a path follows by induction
on the path, and that merging twice is merging once by induction on the value.
-/

namespace Stencil

/-! ### Values -/

namespace Json

/-- What stands at a path of keys, the outermost first. -/
def at? : List Text → Json → Option Json
  | [], v => some v
  | key :: path, v => (v.object?.bind fun members => members.get? key).bind (at? path)

def IsLeaf (v : Json) : Prop := ∀ members, v.object? = some members → members = []

/-- No object that is reached through objects has a key twice. -/
inductive HasDistinctKeys : Json → Prop
  | leaf {v : Json} (h : v.object? = none) : HasDistinctKeys v
  | object {members : Object} (hkeys : (members.map Prod.fst).Nodup)
      (hvalues : ∀ m ∈ members, HasDistinctKeys m.2) : HasDistinctKeys (.object members)

/-- The members of what stands under a key, if it is an object. -/
def membersOf (current : Option Json) : Object := (current.bind object?).getD []

variable {v : Json} {members : Object} {path : List Text} {key : Text}

theorem at?_cons_object (key : Text) (path : List Text) (members : Object) :
    at? (key :: path) (.object members) = (members.get? key).bind (at? path) := rfl

theorem HasDistinctKeys.keys (h : (Json.object members).HasDistinctKeys) :
    (members.map Prod.fst).Nodup := by
  cases h with
  | leaf h => cases h
  | object hkeys _ => exact hkeys

theorem HasDistinctKeys.value (h : (Json.object members).HasDistinctKeys)
    (hget : members.get? key = some v) : v.HasDistinctKeys := by
  cases h with
  | leaf h => cases h
  | object _ hvalues => exact hvalues (key, v) (Table.mem_of_get? hget)

theorem eq_object_of_object? (h : v.object? = some members) : v = .object members := by
  cases v with
  | object _ => rw [Option.some.inj h]
  | null | bool _ | int _ | real _ | string _ | array _ => cases h

private theorem eq_object_of_at? (h : at? path v = some (.object members)) :
    ∃ own, v = .object own := by
  cases path with
  | nil => exact ⟨members, Option.some.inj h⟩
  | cons key path =>
      obtain ⟨w, hw, -⟩ := Option.bind_eq_some_iff.1 h
      obtain ⟨own, hown, -⟩ := Option.bind_eq_some_iff.1 hw
      exact ⟨own, eq_object_of_object? hown⟩

private theorem membersOf_eq_nil {current : Option Json} (h : ∀ own, current ≠ some (.object own)) :
    membersOf current = [] := by
  match current with
  | none => rfl
  | some v =>
      cases hv : v.object? with
      | none => rw [membersOf, Option.bind_some, hv, Option.getD_none]
      | some own => exact absurd (congrArg some (eq_object_of_object? hv)) (h own)

theorem mergeInto_of_object? (h : v.object? = none) (current : Option Json) :
    mergeInto current v = v := by
  cases v with
  | object _ => cases h
  | null | bool _ | int _ | real _ | string _ | array _ => simp [mergeInto]

end Json

/-! ### Merging where there is no object -/

private theorem Object.merge_eq_append {t s : Object} (hs : (s.map Prod.fst).Nodup)
    (hnew : ∀ m ∈ s, t.get? m.1 = none) (hself : ∀ m ∈ s, Json.mergeInto none m.2 = m.2) :
    merge t s = t ++ s := by
  induction s generalizing t with
  | nil => rw [merge_nil, List.append_nil]
  | cons m s ih =>
      obtain ⟨key, value⟩ := m
      obtain ⟨hnot, hs⟩ := List.nodup_cons.1 hs
      obtain ⟨hkey, hnew⟩ := List.forall_mem_cons.1 hnew
      obtain ⟨hvalue, hself⟩ := List.forall_mem_cons.1 hself
      have hothers : ∀ m ∈ s, (t.put key value).get? m.1 = none := by
        intro m hm
        rw [Table.get?_put, if_neg, hnew m hm]
        intro hsame
        exact hnot (List.mem_map.2 ⟨m, hm, hsame.symm⟩)
      rw [merge_cons, hkey, hvalue, ih hs hothers hself, Table.put_eq_append hkey,
        List.append_assoc, List.singleton_append]

theorem Json.HasDistinctKeys.mergeInto_none {v : Json} (h : v.HasDistinctKeys) :
    mergeInto none v = v := by
  induction h with
  | leaf h => exact mergeInto_of_object? h none
  | object hkeys _ ih =>
      have hmerge := Object.merge_eq_append (t := []) hkeys (fun _ _ => rfl) ih
      simp only [mergeInto]
      exact congrArg Json.object hmerge

namespace Object

open Json

variable {t s members merged : Object} {path : List Text} {key : Text} {v : Json}

theorem nil_merge (hs : (object s).HasDistinctKeys) : merge [] s = s := by
  have hmerge := hs.mergeInto_none
  simp only [mergeInto] at hmerge
  exact Json.object.inj hmerge

theorem mergeInto_object (hs : (object s).HasDistinctKeys) (current : Option Json) :
    mergeInto current (object s) = object (merge (membersOf current) s) := by
  match current with
  | none | some .null | some (.object own) => simp [mergeInto, membersOf, object?, merge]
  | some (.bool _) | some (.int _) | some (.real _) | some (.string _) | some (.array _) =>
      simp [mergeInto, membersOf, object?, nil_merge hs]

/-! ### One key -/

theorem get?_merge_of_none (h : s.get? key = none) : (merge t s).get? key = t.get? key := by
  induction s generalizing t with
  | nil => rw [merge_nil]
  | cons m s ih =>
      obtain ⟨k, value⟩ := m
      rw [Table.get?_cons] at h
      split_ifs at h with hk
      rw [merge_cons, ih h, Table.get?_put, if_neg hk]

theorem get?_merge_of_some (hs : (s.map Prod.fst).Nodup) (h : s.get? key = some v) :
    (merge t s).get? key = some (mergeInto (t.get? key) v) := by
  induction s generalizing t with
  | nil => cases h
  | cons m s ih =>
      obtain ⟨k, value⟩ := m
      obtain ⟨hnot, hs⟩ := List.nodup_cons.1 hs
      rw [Table.get?_cons] at h
      rw [merge_cons]
      split_ifs at h with hk
      · obtain rfl := Option.some.inj h
        obtain rfl : k = key := hk
        rw [get?_merge_of_none (Table.get?_eq_none_iff.2 hnot), Table.get?_put_self]
      · rw [ih hs h, Table.get?_put, if_neg hk]

theorem at?_merge_of_none (h : s.get? key = none) :
    at? (key :: path) (object (merge t s)) = at? (key :: path) (object t) := by
  rw [at?_cons_object, get?_merge_of_none h, at?_cons_object]

theorem at?_merge_of_leaf (hs : (object s).HasDistinctKeys) (h : s.get? key = some v)
    (hv : v.object? = none) : at? (key :: path) (object (merge t s)) = at? path v := by
  rw [at?_cons_object, get?_merge_of_some hs.keys h, mergeInto_of_object? hv, Option.bind_some]

section Objects

variable (hs : (object s).HasDistinctKeys) (h : s.get? key = some (object members))
include hs h

theorem at?_merge_of_object : at? (key :: path) (object (merge t s)) =
    at? path (object (merge (membersOf (t.get? key)) members)) := by
  rw [at?_cons_object, get?_merge_of_some hs.keys h, mergeInto_object (hs.value h),
    Option.bind_some]

theorem at?_merge_of_objects {own : Object} (ht : t.get? key = some (object own)) :
    at? (key :: path) (object (merge t s)) = at? path (object (merge own members)) := by
  rw [at?_merge_of_object hs h, ht]
  rfl

theorem at?_merge_of_no_object (ht : ∀ own, t.get? key ≠ some (object own)) :
    at? (key :: path) (object (merge t s)) = at? path (object members) := by
  rw [at?_merge_of_object hs h, membersOf_eq_nil ht, nil_merge (hs.value h)]

end Objects

/-! ### One path -/

/-- The path leads through objects of both, to one of the second that lacks the next key. -/
def Omits (t s : Object) (path : List Text) : Prop :=
  ∃ front key back own members, path = front ++ key :: back ∧
    at? front (object t) = some (object own) ∧ at? front (object s) = some (object members) ∧
    Table.get? members key = none

private theorem omits_of_get? (path : List Text) (h : s.get? key = none) :
    Omits t s (key :: path) :=
  ⟨[], key, path, t, s, rfl, rfl, rfl, h⟩

theorem Omits.cons {own : Object} (h : Omits own members path)
    (ht : t.get? key = some (object own)) (hs : s.get? key = some (object members)) :
    Omits t s (key :: path) := by
  obtain ⟨front, next, back, t', s', rfl, ht', hs', hnext⟩ := h
  refine ⟨key :: front, next, back, t', s', rfl, ?_, ?_, hnext⟩
  · rw [at?_cons_object, ht, Option.bind_some, ht']
  · rw [at?_cons_object, hs, Option.bind_some, hs']

theorem of_omits_cons (h : Omits t s (key :: path)) : s.get? key = none ∨
    ∃ own members, t.get? key = some (object own) ∧ s.get? key = some (object members) ∧
      Omits own members path := by
  obtain ⟨front, next, back, t', s', hpath, ht', hs', hnext⟩ := h
  cases front with
  | nil =>
      obtain rfl := Json.object.inj (Option.some.inj hs')
      obtain ⟨rfl, -⟩ := List.cons.inj hpath
      exact .inl hnext
  | cons k front =>
      obtain ⟨rfl, rfl⟩ := List.cons.inj hpath
      rw [at?_cons_object] at ht' hs'
      obtain ⟨v, hv, ht'⟩ := Option.bind_eq_some_iff.1 ht'
      obtain ⟨w, hw, hs'⟩ := Option.bind_eq_some_iff.1 hs'
      obtain ⟨own, rfl⟩ := eq_object_of_at? ht'
      obtain ⟨members, rfl⟩ := eq_object_of_at? hs'
      exact .inr ⟨own, members, hv, hw, front, next, back, t', s', rfl, ht', hs', hnext⟩

/-- A value that is no object, and an object where there was none, stands in the merged object. -/
theorem at?_merge_of_at? (hs : (object s).HasDistinctKeys) (h : at? path (object s) = some v)
    (hv : v.object? = none ∨ (at? path (object t)).bind object? = none) :
    at? path (object (merge t s)) = some v := by
  induction path generalizing t s with
  | nil =>
      obtain rfl := Option.some.inj h
      rcases hv with hv | hv <;> cases hv
  | cons key path ih =>
      rw [at?_cons_object] at h hv
      obtain ⟨w, hw, h⟩ := Option.bind_eq_some_iff.1 h
      cases hobject : w.object? with
      | none => rw [at?_merge_of_leaf hs hw hobject, h]
      | some members =>
          obtain rfl := eq_object_of_object? hobject
          by_cases hown : ∃ own, t.get? key = some (object own)
          · obtain ⟨own, hown⟩ := hown
            rw [hown, Option.bind_some] at hv
            rw [at?_merge_of_objects hs hw hown]
            exact ih (hs.value hw) h hv
          · rw [at?_merge_of_no_object hs hw (not_exists.1 hown), h]

theorem at?_merge_of_omits (hs : (object s).HasDistinctKeys) (homits : Omits t s path)
    (h : at? path (object t) = some v) : at? path (object (merge t s)) = some v := by
  induction path generalizing t s with
  | nil =>
      obtain ⟨front, key, back, -, -, hpath, -⟩ := homits
      cases front <;> cases hpath
  | cons key path ih =>
      rcases of_omits_cons homits with hnone | ⟨own, members, hown, hmembers, homits⟩
      · rw [at?_merge_of_none hnone, h]
      · rw [at?_cons_object, hown, Option.bind_some] at h
        rw [at?_merge_of_objects hs hmembers hown]
        exact ih (hs.value hmembers) homits h

theorem of_at?_merge (hs : (object s).HasDistinctKeys)
    (h : at? path (object (merge t s)) = some v) (hv : v.IsLeaf) :
    at? path (object s) = some v ∨ Omits t s path ∧ at? path (object t) = some v := by
  induction path generalizing t s with
  | nil =>
      obtain rfl := Option.some.inj h
      have hmerged : merge t s = [] := hv _ rfl
      match s with
      | [] => exact .inl (by rw [hmerged]; rfl)
      | m :: s =>
          have hget : Table.get? (m :: s) m.1 = some m.2 := by rw [Table.get?_cons, if_pos rfl]
          have hkept := get?_merge_of_some (t := t) hs.keys hget
          rw [hmerged] at hkept
          cases hkept
  | cons key path ih =>
      cases hw : s.get? key with
      | none => exact .inr ⟨omits_of_get? path hw, by rwa [at?_merge_of_none hw] at h⟩
      | some w =>
          rw [at?_cons_object, hw, Option.bind_some]
          cases hobject : w.object? with
          | none =>
              rw [at?_merge_of_leaf hs hw hobject] at h
              exact .inl h
          | some members =>
              obtain rfl := eq_object_of_object? hobject
              by_cases hown : ∃ own, t.get? key = some (object own)
              · obtain ⟨own, hown⟩ := hown
                rw [at?_merge_of_objects hs hw hown] at h
                rcases ih (hs.value hw) h with hsource | ⟨homits, htarget⟩
                · exact .inl hsource
                · refine .inr ⟨homits.cons hown hw, ?_⟩
                  rw [at?_cons_object, hown, Option.bind_some, htarget]
              · rw [at?_merge_of_no_object hs hw (not_exists.1 hown)] at h
                exact .inl h

/-! ### Merging again -/

theorem merge_eq_self (h : ∀ m ∈ s, ∃ v, t.get? m.1 = some v ∧ mergeInto (some v) m.2 = v) :
    merge t s = t := by
  induction s with
  | nil => exact merge_nil t
  | cons m s ih =>
      obtain ⟨key, value⟩ := m
      obtain ⟨⟨v, hv, hsame⟩, h⟩ := List.forall_mem_cons.1 h
      rw [merge_cons, hv, hsame, Table.put_eq_self hv, ih h]

theorem merge_merge_of_forall (hs : (s.map Prod.fst).Nodup)
    (h : ∀ m ∈ s, ∀ current, mergeInto (some (mergeInto current m.2)) m.2 = mergeInto current m.2) :
    merge (merge t s) s = merge t s := by
  refine merge_eq_self fun m hm => ⟨mergeInto (t.get? m.1) m.2, ?_, h m hm _⟩
  exact get?_merge_of_some hs (Table.get?_of_mem hs hm)

end Object

theorem Json.HasDistinctKeys.mergeInto_mergeInto {v : Json} (h : v.HasDistinctKeys)
    (current : Option Json) : mergeInto (some (mergeInto current v)) v = mergeInto current v := by
  induction h generalizing current with
  | leaf h => rw [mergeInto_of_object? h, mergeInto_of_object? h]
  | object hkeys hvalues ih =>
      have hobject := HasDistinctKeys.object hkeys hvalues
      rw [Object.mergeInto_object hobject, Object.mergeInto_object hobject]
      exact congrArg Json.object (Object.merge_merge_of_forall hkeys ih)

namespace Object

open Json

variable {t s : Object}

/-- Merging an object again changes nothing. -/
theorem merge_merge (hs : (object s).HasDistinctKeys) : merge (merge t s) s = merge t s := by
  refine merge_merge_of_forall hs.keys fun m hm current => ?_
  exact (hs.value (Table.get?_of_mem hs.keys hm)).mergeInto_mergeInto current

private theorem mergeAll?_object (t s : Object) (values : List Json) :
    mergeAll? t (object s :: values) = mergeAll? (merge t s) values := by
  cases s with
  | nil => rw [merge_nil]; rfl
  | cons m s => rfl

/-- In an object with another merged into it, the values of the other that are no objects stand
where they stood, what the other omits is left as it was, and an object of the other where there was
none stands as it is. There are no leaves but these. Merging the other again changes nothing. -/
theorem mergeAll?_laws (t : Object) {s : Object} (hs : (object s).HasDistinctKeys) :
    ∃ merged, mergeAll? t [object s] = some merged ∧
      (∀ path v, at? path (object s) = some v → v.object? = none →
        at? path (object merged) = some v) ∧
      (∀ path v, Omits t s path → at? path (object t) = some v →
        at? path (object merged) = some v) ∧
      (∀ path members, at? path (object s) = some (object members) →
        (at? path (object t)).bind object? = none →
        at? path (object merged) = some (object members)) ∧
      (∀ path v, at? path (object merged) = some v → v.IsLeaf →
        at? path (object s) = some v ∨ Omits t s path ∧ at? path (object t) = some v) ∧
      mergeAll? t [object s, object s] = some merged := by
  refine ⟨merge t s, mergeAll?_object t s [], ?_, ?_, ?_, ?_, ?_⟩
  · exact fun path v h hv => at?_merge_of_at? hs h (.inl hv)
  · exact fun path v homits h => at?_merge_of_omits hs homits h
  · exact fun path members h ht => at?_merge_of_at? hs h (.inr ht)
  · exact fun path v h hv => of_at?_merge hs h hv
  · rw [mergeAll?_object, mergeAll?_object, merge_merge hs]
    rfl

/-- An object inside two others, one in the place of nothing, and one in the place of a number. -/
theorem mergeAll?_laws_nested :
    (object [("a".toList, .object [("y".toList, .object [("z".toList, .null)])]),
        ("b".toList, .object [("c".toList, .bool true)])]).HasDistinctKeys ∧
      ∃ merged,
        mergeAll? [("a".toList, .object [("x".toList, .int 1), ("y".toList, .null)]),
            ("b".toList, .int 2)]
          [.object [("a".toList, .object [("y".toList, .object [("z".toList, .null)])]),
            ("b".toList, .object [("c".toList, .bool true)])]] = some merged ∧
        at? ["a".toList, "x".toList] (object merged) = some (.int 1) ∧
        at? ["a".toList, "y".toList, "z".toList] (object merged) = some .null ∧
        at? ["b".toList] (object merged) = some (.object [("c".toList, .bool true)]) := by
  have hs : (object [("a".toList, .object [("y".toList, .object [("z".toList, .null)])]),
      ("b".toList, .object [("c".toList, .bool true)])]).HasDistinctKeys := by
    have hz : (object [("z".toList, .null)]).HasDistinctKeys :=
      .object (by decide) (List.forall_mem_singleton.2 (.leaf rfl))
    have hy : (object [("y".toList, .object [("z".toList, .null)])]).HasDistinctKeys :=
      .object (by decide) (List.forall_mem_singleton.2 hz)
    have hc : (object [("c".toList, .bool true)]).HasDistinctKeys :=
      .object (by decide) (List.forall_mem_singleton.2 (.leaf rfl))
    exact .object (by decide) (List.forall_mem_cons.2 ⟨hy, List.forall_mem_singleton.2 hc⟩)
  obtain ⟨merged, hmerged, hvalues, hkept, hreplaced, -, -⟩ :=
    mergeAll?_laws [("a".toList, .object [("x".toList, .int 1), ("y".toList, .null)]),
      ("b".toList, .int 2)] hs
  refine ⟨hs, merged, hmerged, hkept _ _ ?_ rfl, hvalues _ _ rfl rfl, hreplaced _ _ rfl rfl⟩
  exact ⟨["a".toList], "x".toList, [], _, _, rfl, rfl, rfl, rfl⟩

end Object

end Stencil
