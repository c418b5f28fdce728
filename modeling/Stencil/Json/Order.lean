import Stencil.Json.Basic

/-!
# The order of data values

Numbers are compared with numbers, texts with texts and lists with lists, and nothing else can be
compared. Two lists are compared at the first place where they differ; a list that ends before such
a place comes first.
-/

namespace Stencil

namespace Json

/-- The number that the value is worth. A truth value is worth zero or one, and a number with a
point or an exponent is worth what is kept of it. -/
def number? : Json → Option Number
  | bool b => some (.ofInt (if b then 1 else 0))
  | int n => some (.ofInt n)
  | real x => some x.nearest
  | _ => none

mutual

/-- Whether two values are the same but for the way in which numbers are written and members are
arranged. -/
def same : Json → Json → Bool
  | null, null => true
  | string s, string t => s == t
  | array vs, array ws => sameItems vs ws
  | object ms, object ns => ms.length == ns.length && sameMembers ms ns
  | v, w =>
    match v.number?, w.number? with
    | some x, some y => x.same y
    | _, _ => false

def sameItems : List Json → List Json → Bool
  | [], [] => true
  | v :: vs, w :: ws => same v w && sameItems vs ws
  | _, _ => false

/-- Whether an object has the same values under the keys of certain members. -/
def sameMembers : List (Text × Json) → Object → Bool
  | [], _ => true
  | m :: ms, members => sameMember m members && sameMembers ms members

/-- Whether an object has the same value under the key of a member. -/
def sameMember : Text × Json → Object → Bool
  | (key, v), members =>
    match members.get? key with
    | some w => same v w
    | none => false

end

mutual

/-- Whether the value is at least another one, if they can be compared. -/
def atLeast? : Json → Json → Option Bool
  | string s, string t => some (Text.atLeast s t)
  | array vs, array ws => itemsAtLeast? vs ws
  | v, w => v.number?.bind fun x => w.number?.map fun y => x.atLeast y

def itemsAtLeast? : List Json → List Json → Option Bool
  | _, [] => some true
  | [], _ :: _ => some false
  | v :: vs, w :: ws => if same v w then itemsAtLeast? vs ws else atLeast? v w

end

@[simp] theorem atLeast?_int (m n : Int) : atLeast? (int m) (int n) = some (decide (n ≤ m)) := by
  simp [atLeast?, number?]

end Json

end Stencil
