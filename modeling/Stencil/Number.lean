import Stencil.Decimal

/-!
# Numbers

A number that is written with a point or an exponent is finite, but such numbers end where
`2 ^ 1024` begins: beyond, there are only the two infinite numbers. An undefined number is neither
above nor below any number, nor is it at least itself.
-/

namespace Stencil

/-- A number that may lie beyond the finite ones. -/
inductive Number where
  | finite (value : Decimal)
  | infinite (isNegative : Bool)
  | undefined
deriving DecidableEq, Repr

namespace Number

def ofInt (n : Int) : Number := .finite (.ofInt n)

def ofDecimal (d : Decimal) : Number :=
  let m : Nat := d.nearest.scaled.natAbs
  if m < Nat.pow 2 1024 * d.nearest.scale.natAbs then .finite d else .infinite d.isNegative

def isZero : Number → Bool
  | .finite value => value.isZero
  | _ => false

/-- The number with its value rounded to what is kept of it. -/
def nearest : Number → Number
  | .finite value => .finite value.nearest
  | n => n

def atLeast : Number → Number → Bool
  | .finite a, .finite b => a.atLeast b
  | .finite _, .infinite isNegative => isNegative
  | .infinite isNegative, .finite _ => !isNegative
  | .infinite a, .infinite b => !a || b
  | _, _ => false

/-- Whether two numbers are the same. An undefined number is the same as itself, though it is not
at least itself. -/
def same (m n : Number) : Bool :=
  (m == .undefined && n == .undefined) || (m.atLeast n && n.atLeast m)

@[simp] theorem atLeast_ofInt (m n : Int) : (ofInt m).atLeast (ofInt n) = decide (n ≤ m) := by
  simp [atLeast, ofInt]

end Number

end Stencil
