import Stencil.Json.Basic

/-!
# Deep merging

Merging sets the members of one object in another. Where the new value is an object and the old
one is an object too, or missing, or null, the two are merged in turn; any other old value is
replaced.
-/

namespace Stencil

mutual

/-- What stands under a key after merging a value into what stood there. -/
def Json.mergeInto (current : Option Json) : Json → Json
  | .object members =>
    match current with
    | none | some .null => .object (Object.mergeMembers [] members)
    | some (.object own) => .object (Object.mergeMembers own members)
    | some _ => .object members
  | value => value

/-- The object with the members of another merged into it in order. -/
def Object.mergeMembers (target : Object) : List (Text × Json) → Object
  | [] => target
  | m :: ms => Object.mergeMembers (target.put m.1 (Object.mergeMember target m)) ms

/-- What stands under the key of a member after merging the member. -/
def Object.mergeMember (target : Object) : Text × Json → Json
  | (key, value) => Json.mergeInto (target.get? key) value

end

namespace Object

def merge (target source : Object) : Object := mergeMembers target source

/-- The object with values merged into it in order. Empty values are passed over, and any other
value has to be an object. -/
def mergeAll? (target : Object) : List Json → Option Object
  | [] => some target
  | value :: values =>
    if value.isGiven then value.object?.bind fun members => mergeAll? (merge target members) values
    else mergeAll? target values

@[simp] theorem merge_nil (target : Object) : merge target [] = target := by
  simp [merge, mergeMembers]

theorem merge_cons (target : Object) (key : Text) (value : Json) (source : Object) :
    merge target ((key, value) :: source) =
      merge (target.put key (Json.mergeInto (target.get? key) value)) source := by
  simp [merge, mergeMembers, mergeMember]

end Object

end Stencil
