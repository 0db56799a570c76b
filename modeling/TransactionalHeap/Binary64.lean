/-!
# Floats as 64 bits

What the bits of a float stand for, and the float nearest to a ratio of natural numbers. All of it
is arithmetic on whole numbers.
-/

namespace TransactionalHeap

/-- The value of a float. A finite one is `mantissa * 2 ^ exponent`, negated if so marked. -/
inductive Binary64 where
  | nan
  | infinite (negative : Bool)
  | finite (negative : Bool) (mantissa : Nat) (exponent : Int)
  deriving DecidableEq, Repr

namespace Binary64

/-- The bits below the exponent. -/
def fractionUnit : Nat := 1 <<< 52

def signBit : Nat := 1 <<< 63

/-- The magnitude bits of an infinite value. -/
def infinity : Nat := 2047 * fractionUnit

/-- The exponent of the smallest floats. -/
def leastExponent : Int := -1074

/-- The mantissa and exponent of a finite magnitude. -/
def split (magnitude : Nat) : Nat × Int :=
  let e := magnitude / fractionUnit
  let f := magnitude % fractionUnit
  if e = 0 then (f, leastExponent) else (f + fractionUnit, leastExponent + (e - 1 : Nat))

def decode (bits : UInt64) : Binary64 :=
  let negative := signBit ≤ bits.toNat
  let magnitude := bits.toNat % signBit
  if magnitude < infinity then .finite negative (split magnitude).1 (split magnitude).2
  else if magnitude = infinity then .infinite negative
  else .nan

/-- Bits from a sign and a magnitude. -/
def encode (negative : Bool) (magnitude : Nat) : UInt64 :=
  UInt64.ofNat (if negative then signBit + magnitude else magnitude)

/-- The nearest whole number; a half goes to the even neighbour. -/
def roundDiv (n d : Nat) : Nat :=
  let floor := n / d
  let twice := 2 * (n % d)
  if twice < d then floor
  else if d < twice then floor + 1
  else floor + floor % 2

/-- A ratio as a fraction of whole numbers, in units of a power of two. -/
def inUnits (n d : Nat) (unit : Int) : Nat × Nat :=
  (n <<< (-unit).toNat, d <<< unit.toNat)

/-- The magnitude nearest to `n / d * 2 ^ scale`; a tie goes to the even one. -/
def nearest (n d : Nat) (scale : Int) : Nat :=
  if n = 0 then 0
  else
    let estimate : Int := (Nat.log2 n : Int) - Nat.log2 d + scale
    let low := max (estimate - 53) leastExponent
    let (top, bottom) := inUnits n d (low - scale)
    let unit := if 2 * fractionUnit ≤ top / bottom then low + 1 else low
    let (top, bottom) := inUnits n d (unit - scale)
    min infinity (roundDiv top bottom + (unit - leastExponent).toNat * fractionUnit)

/-- The product of two finite magnitudes. -/
def product (a b : Nat) : Nat :=
  nearest ((split a).1 * (split b).1) 1 ((split a).2 + (split b).2)

/-- The quotient of two finite magnitudes. -/
def quotient (a b : Nat) : Nat :=
  nearest (split a).1 (split b).1 ((split a).2 - (split b).2)

end Binary64

end TransactionalHeap
