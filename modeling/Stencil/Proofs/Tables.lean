import Mathlib.Data.List.Nodup
import Stencil.Table

/-!
# Laws of tables

What stands under a key of a table that values were set in, that another one follows, or that
members were taken from. Keys stay distinct when values are set.
-/

namespace Stencil.Table

variable {α : Type} {t l : Table α} {key : Text} {value : α} {q : Text → Bool}

/-! ### Looking up -/

theorem get?_eq_none_iff : t.get? key = none ↔ key ∉ t.map Prod.fst := by
  rw [get?, List.lookup_eq_none_iff, List.mem_map, not_exists]
  refine forall_congr' fun m => ?_
  rw [bne_iff_ne, not_and, ne_comm]

theorem mem_of_get? (h : t.get? key = some value) : (key, value) ∈ t := by
  obtain ⟨before, after, rfl, -⟩ := List.lookup_eq_some_iff.1 h
  exact List.mem_append_right _ List.mem_cons_self

theorem get?_of_mem (ht : (t.map Prod.fst).Nodup) (h : (key, value) ∈ t) :
    t.get? key = some value := by
  obtain ⟨before, after, rfl⟩ := List.append_of_mem h
  refine List.lookup_eq_some_iff.2 ⟨before, after, rfl, fun m hm => ?_⟩
  rw [List.map_append, List.map_cons, List.nodup_append] at ht
  simpa using (ht.2.2 m.1 (List.mem_map_of_mem hm) key List.mem_cons_self).symm

theorem get?_eq_some_iff (ht : (t.map Prod.fst).Nodup) :
    t.get? key = some value ↔ (key, value) ∈ t :=
  ⟨mem_of_get?, get?_of_mem ht⟩

theorem get?_append (t l : Table α) (key : Text) :
    get? (t ++ l) key = (t.get? key).or (l.get? key) := List.lookup_append

theorem get?_filter (t : Table α) (h : q key = true) :
    get? (t.filter fun m => q m.1) key = t.get? key := by
  induction t with
  | nil => rfl
  | cons m t ih =>
      rw [List.filter_cons]
      by_cases hm : q m.1 = true
      · rw [if_pos hm, get?_cons, get?_cons, ih]
      · have hne : m.1 ≠ key := by
          intro heq
          rw [heq] at hm
          exact hm h
        rw [if_neg hm, get?_cons, if_neg hne, ih]

/-! ### Setting one value -/

theorem put_eq_self (h : t.get? key = some value) : t.put key value = t := by
  induction t with
  | nil => cases h
  | cons m t ih =>
      obtain ⟨k, v⟩ := m
      rw [get?_cons] at h
      rw [put]
      split_ifs at h ⊢ with hk
      · obtain rfl := Option.some.inj h
        rw [← hk]
      · rw [ih h]

theorem put_eq_append (h : t.get? key = none) : t.put key value = t ++ [(key, value)] := by
  induction t with
  | nil => rfl
  | cons m t ih =>
      rw [get?_cons] at h
      rw [put]
      split_ifs at h ⊢ with hk
      rw [ih h, List.cons_append]

theorem keys_put {v : α} (h : t.get? key = some v) (value : α) :
    (t.put key value).map Prod.fst = t.map Prod.fst := by
  induction t with
  | nil => cases h
  | cons m t ih =>
      rw [get?_cons] at h
      rw [put]
      split_ifs at h ⊢ with hm
      · rw [List.map_cons, List.map_cons, hm]
      · rw [List.map_cons, List.map_cons, ih h]

theorem nodup_put (ht : (t.map Prod.fst).Nodup) (key : Text) (value : α) :
    ((t.put key value).map Prod.fst).Nodup := by
  cases hget : t.get? key with
  | none =>
      rw [put_eq_append hget, List.map_append, List.nodup_append]
      refine ⟨ht, List.nodup_singleton _, ?_⟩
      intro other hother _ hkey heq
      obtain rfl := List.mem_singleton.1 hkey
      exact get?_eq_none_iff.1 hget (heq ▸ hother)
  | some v =>
      rw [keys_put hget]
      exact ht

theorem filter_put (t : Table α) (key : Text) (value : α) :
    (t.put key value).filter (fun m => q m.1) =
      if q key then put key value (t.filter fun m => q m.1) else t.filter fun m => q m.1 := by
  induction t with
  | nil => rw [put, List.filter_cons, List.filter_nil, put]
  | cons m t ih =>
      rw [put, List.filter_cons]
      by_cases hm : m.1 = key
      · rw [if_pos hm, List.filter_cons, hm]
        by_cases hq : q key = true
        · rw [if_pos hq, if_pos hq, if_pos hq, put, if_pos hm]
        · rw [if_neg hq, if_neg hq, if_neg hq]
      · rw [if_neg hm, List.filter_cons, ih]
        by_cases hq : q m.1 = true
        · rw [if_pos hq, if_pos hq, put, if_neg hm]
          split_ifs <;> rfl
        · rw [if_neg hq, if_neg hq]

/-! ### Setting several values -/

theorem update_eq_append (hl : (l.map Prod.fst).Nodup) (hnew : ∀ m ∈ l, t.get? m.1 = none) :
    t.update l = t ++ l := by
  induction l generalizing t with
  | nil => exact (List.append_nil t).symm
  | cons m l ih =>
      obtain ⟨hnot, hl⟩ := List.nodup_cons.1 hl
      obtain ⟨hkey, hnew⟩ := List.forall_mem_cons.1 hnew
      have hothers : ∀ n ∈ l, (t.put m.1 m.2).get? n.1 = none := by
        intro n hn
        rw [get?_put, if_neg, hnew n hn]
        intro hsame
        apply hnot
        rw [hsame]
        exact List.mem_map_of_mem hn
      change (t.put m.1 m.2).update l = t ++ m :: l
      rw [ih hl hothers, put_eq_append hkey, List.append_assoc]
      rfl

theorem nodup_update (ht : (t.map Prod.fst).Nodup) (l : Table α) :
    ((t.update l).map Prod.fst).Nodup := by
  induction l generalizing t with
  | nil => exact ht
  | cons m l ih => exact ih (nodup_put ht m.1 m.2)

theorem get?_update (hl : (l.map Prod.fst).Nodup) :
    (t.update l).get? key = (l.get? key).or (t.get? key) := by
  induction l generalizing t with
  | nil => rfl
  | cons m l ih =>
      obtain ⟨hnot, hl⟩ := List.nodup_cons.1 hl
      change ((t.put m.1 m.2).update l).get? key = _
      rw [ih hl, get?_put, get?_cons]
      by_cases hm : m.1 = key
      · rw [if_pos hm, if_pos hm, get?_eq_none_iff.2 (hm ▸ hnot)]
        rfl
      · rw [if_neg hm, if_neg hm]

end Stencil.Table
