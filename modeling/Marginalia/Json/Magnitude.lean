import Marginalia.Text.Basic

/-! The size of numbers.

A number is kept as a mantissa and a power of ten. The mantissa has as many leading digits as fit
into 64 bits, and of the digits after those only their places count. A number is out of range if
this product has no double near it, where the mantissa and the power of ten are rounded to doubles
before they are multiplied. -/

namespace Marginalia.Json

def digitValue (d : Char) : Nat := d.toNat - '0'.toNat

/-- The number that decimal digits stand for. -/
def decimal (digits : Text) : Nat := digits.foldl (fun n d => n * 10 + digitValue d) 0

/-- Mantissas are below this number. -/
def mantissaLimit : Nat := Nat.pow 2 64

/-- A mantissa with as many further digits as it has room for, and the digits that are left. -/
def appendDigits : (mantissa : Nat) → (digits : Text) → Nat × Text
  | m, [] => (m, [])
  | m, d :: digits =>
    let longer := m * 10 + digitValue d
    if longer < mantissaLimit then appendDigits longer digits else (m, d :: digits)

/-- The number `mantissa · 10 ^ exponent`. -/
structure Scaled where
  mantissa : Nat
  exponent : Int
  deriving DecidableEq

/-- A number rounded to the 53 leading bits that a double has. A half goes to the even neighbour. -/
def roundToDouble (n : Nat) : Nat :=
  let unit := Nat.pow 2 (n.log2 + 1 - 53)
  let quotient := n / unit
  let twice := 2 * (n % unit)
  if unit < twice || (twice == unit && quotient % 2 == 1) then (quotient + 1) * unit
  else quotient * unit

/-- The least number that is nearer to `2 ^ 1024` than to the greatest double. -/
def doubleLimit : Nat := Nat.pow 2 1024 - Nat.pow 2 970

namespace Scaled

def ofDigits (digits : Text) : Scaled :=
  let (mantissa, left) := appendDigits 0 digits
  ⟨mantissa, left.length⟩

/-- The number with the digits of a fraction after it. -/
def withFraction (x : Scaled) (digits : Text) : Scaled :=
  let (mantissa, left) := appendDigits x.mantissa digits
  ⟨mantissa, x.exponent + left.length - digits.length⟩

/-- The number with a decimal exponent after it. -/
def withExponent (x : Scaled) (e : Int) : Scaled := { x with exponent := x.exponent + e }

/-- The number is too large for a double. Only powers of ten from zero up can be, and among them
those beyond `10 ^ 308` always are. -/
def isOutOfRange (x : Scaled) : Bool :=
  if x.mantissa = 0 ∨ x.exponent < 0 then false
  else if 308 < x.exponent then true
  else
    doubleLimit ≤ roundToDouble x.mantissa * roundToDouble (Nat.pow 10 x.exponent.toNat)

end Scaled
end Marginalia.Json
