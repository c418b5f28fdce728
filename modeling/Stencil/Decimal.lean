/-!
# Decimal numbers

A number with a decimal exponent, as it is written in data. Values that are only handed on keep
the number as it was written, a zero with its sign. What such a number is worth is the nearest
number of 53 binary digits, which `nearest` gives as a decimal number again; a whole number can be
told, and decimal numbers can be compared.
-/

namespace Stencil

/-- The number `digits * 10 ^ exponent` or its negative. -/
structure Decimal where
  isNegative : Bool
  digits : Nat
  exponent : Int
deriving DecidableEq, Repr

namespace Decimal

def ofInt (n : Int) : Decimal := ⟨n < 0, n.natAbs, 0⟩

def isZero (d : Decimal) : Bool := d.digits == 0

/-- The digits with their sign, as an integer. -/
def mantissa (d : Decimal) : Int := if d.isNegative then -d.digits else d.digits

/-- The power of ten below the number, if its exponent is negative. -/
def scale (d : Decimal) : Int := Nat.pow 10 (-d.exponent).toNat

/-- The number times its scale, which is an integer. -/
def scaled (d : Decimal) : Int := d.mantissa * Nat.pow 10 d.exponent.toNat

def toInt? (d : Decimal) : Option Int :=
  if d.scaled % d.scale = 0 then some (d.scaled / d.scale) else none

def atLeast (d e : Decimal) : Bool := e.scaled * d.scale ≤ d.scaled * e.scale

@[simp] theorem mantissa_ofInt (n : Int) : (ofInt n).mantissa = n := by
  simp only [mantissa, ofInt, decide_eq_true_eq]
  omega

@[simp] theorem exponent_ofInt (n : Int) : (ofInt n).exponent = 0 := rfl

@[simp] theorem atLeast_ofInt (m n : Int) : (ofInt m).atLeast (ofInt n) = decide (n ≤ m) := by
  simp [atLeast, scale, scaled]

@[simp] theorem toInt?_ofInt (n : Int) : (ofInt n).toInt? = some n := by
  simp [toInt?, scale, scaled]

/-! ### Binary precision -/

/-- The integer nearest to `n / d`, and the even one of two that are equally near. -/
def roundedQuotient (n d : Nat) : Nat :=
  if 2 * (n % d) < d ∨ (2 * (n % d) = d ∧ n / d % 2 = 0) then n / d else n / d + 1

/-- The exponent of the greatest power of two that is at most `n / d`, both being positive. -/
def binaryExponent (n d : Nat) : Int :=
  let e : Int := (n.log2 : Int) - d.log2
  if d * Nat.pow 2 e.toNat ≤ n * Nat.pow 2 (-e).toNat then e else e - 1

/-- The number `m * 2 ^ e`, or its negative. -/
def ofBinary (isNegative : Bool) (m : Nat) (e : Int) : Decimal :=
  if 0 ≤ e then ⟨isNegative, m * Nat.pow 2 e.toNat, 0⟩
  else ⟨isNegative, m * Nat.pow 5 (-e).toNat, e⟩

/-- The nearest number that has 53 binary digits, the last of them no smaller than `2 ^ -1074`,
and the one with an even last digit if two are equally near. -/
def nearest (d : Decimal) : Decimal :=
  let n := d.scaled.natAbs
  let m := d.scale.natAbs
  if n = 0 then d
  else
    let e := max (binaryExponent n m - 52) (-1074)
    let digits := roundedQuotient (n * Nat.pow 2 (-e).toNat) (m * Nat.pow 2 e.toNat)
    ofBinary d.isNegative digits e

end Decimal

end Stencil
