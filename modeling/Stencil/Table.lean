import Stencil.Text.Basic

/-!
# Tables

Values under keys, in the order in which the keys came up first. A later value takes the place of
an earlier one.
-/

namespace Stencil

abbrev Table (α : Type) := List (Text × α)

namespace Table

variable {α : Type}

def get? (t : Table α) (key : Text) : Option α := List.lookup key t

/-- Sets the value under a key, in its place if the key is there and at the end if it is not. -/
def put (key : Text) (value : α) : Table α → Table α
  | [] => [(key, value)]
  | m :: ms => if m.1 = key then (key, value) :: ms else m :: put key value ms

def update (t : Table α) (members : List (Text × α)) : Table α :=
  members.foldl (fun t m => put m.1 m.2 t) t

@[simp] theorem get?_nil (key : Text) : get? ([] : Table α) key = none := rfl

theorem get?_cons (m : Text × α) (t : Table α) (key : Text) :
    get? (m :: t) key = if m.1 = key then some m.2 else get? t key := by
  obtain ⟨k, v⟩ := m
  by_cases h : k = key
  · simp [get?, h]
  · have : (key == k) = false := by simpa using fun e => h e.symm
    simp [get?, List.lookup_cons, h, this]

theorem get?_put (key other : Text) (value : α) (t : Table α) :
    get? (put key value t) other = if key = other then some value else get? t other := by
  induction t with
  | nil => simp [put, get?_cons]
  | cons m ms ih =>
    by_cases h : m.1 = key
    · by_cases hk : key = other <;> simp [put, get?_cons, h, hk]
    · by_cases hk : key = other
      · subst hk
        simp [put, get?_cons, h, ih]
      · simp [put, get?_cons, h, ih, hk]

@[simp] theorem get?_put_self (key : Text) (value : α) (t : Table α) :
    get? (put key value t) key = some value := by
  simp [get?_put]

end Table

end Stencil
