/-!
# Binary floating point, exactly

A finite double is `± mantissa * 2 ^ exponent` with a mantissa below `2 ^ 53`.
This module takes a double apart into those parts, rounds a quotient of natural
numbers to the nearest double (a tie goes to the even mantissa), and compares an
integer with a double without rounding either.
-/

namespace SmallScheme.Binary64

/-- The exponent of the subnormal numbers, the least there is. -/
def minExponent : Int := -1074

/-- The bits of positive infinity; the magnitudes of finite doubles lie below. -/
def infinityBits : Nat := 0x7FF * Nat.pow 2 52

/-- `mantissa * 2 ^ exponent`. -/
structure Magnitude where
  mantissa : Nat
  exponent : Int
deriving Repr, DecidableEq

/-- Whether the sign bit is set. It is for `-0.0`. -/
def isNegative (x : Float) : Bool :=
  Nat.pow 2 63 ≤ x.toBits.toNat

/-- The bits below the sign. -/
def magnitudeBits (x : Float) : Nat :=
  x.toBits.toNat % Nat.pow 2 63

/-- The magnitude that stands behind the bits of a finite double. -/
def magnitudeOfBits (bits : Nat) : Magnitude :=
  if bits < Nat.pow 2 52 then { mantissa := bits, exponent := minExponent }
  else
    { mantissa := bits % Nat.pow 2 52 + Nat.pow 2 52
      exponent := minExponent - 1 + bits / Nat.pow 2 52 }

/-- The magnitude of a double; `none` for an infinity and for NaN. -/
def magnitude? (x : Float) : Option Magnitude :=
  let bits := magnitudeBits x
  if bits < infinityBits then some (magnitudeOfBits bits) else none

/-- `num * 2 ^ -exponent / den` as a quotient of natural numbers. -/
def scale (num den : Nat) (exponent : Int) : Nat × Nat :=
  (num * Nat.pow 2 (-exponent).toNat, den * Nat.pow 2 exponent.toNat)

/-- Divide and round to the nearest natural number, a tie to the even one. -/
def roundDiv (num den : Nat) : Nat :=
  let q := num / den
  let r := num % den
  if 2 * r > den || (2 * r == den && q % 2 == 1) then q + 1 else q

/-- The exponent that brings `num / den` below `2 ^ 53` and, unless the quotient
is subnormal, to `2 ^ 52` or more. -/
def exponentFor (num den : Nat) : Int :=
  let e := max ((num.log2 : Int) - den.log2 - 53) minExponent
  let (n, d) := scale num den e
  if n / d < Nat.pow 2 53 then e else e + 1

/-- The bits of the double nearest to `num / den`, as if exponents had no upper
bound: a result from `infinityBits` on is too large for a double. A mantissa
that rounds up to `2 ^ 53` carries into the exponent by the sum. -/
def nearestBits (num den : Nat) : Nat :=
  if num = 0 then 0
  else
    let e := exponentFor num den
    let (n, d) := scale num den e
    (e - minExponent).toNat * Nat.pow 2 52 + roundDiv n d

/-- The double nearest to `num / den`; `none` if it is too large. -/
def ofQuotient? (num den : Nat) : Option Float :=
  let bits := nearestBits num den
  if bits < infinityBits then some (Float.ofBits bits.toUInt64) else none

/-- Positive infinity. -/
def infinity : Float := Float.ofBits infinityBits.toUInt64

/-- The double nearest to `num / den`, infinity if it is too large. -/
def ofQuotient (num den : Nat) : Float :=
  (ofQuotient? num den).getD infinity

/-- A magnitude under a sign. -/
def withSign (negative : Bool) (x : Float) : Float :=
  if negative then -x else x

/-- The double nearest to an integer; `none` if it is too large. -/
def ofInt? (n : Int) : Option Float :=
  (ofQuotient? n.natAbs 1).map (withSign (n < 0))

/-- The double nearest to the quotient of two integers; `none` if it is too large. -/
def ofIntQuotient? (a d : Int) : Option Float :=
  (ofQuotient? a.natAbs d.natAbs).map (withSign ((a < 0) != (d < 0)))

/-- How an integer compares with a double, without rounding; `none` for NaN. -/
def compareInt? (n : Int) (x : Float) : Option Ordering :=
  match magnitude? x with
  | some m =>
    let signed : Int := if isNegative x then -m.mantissa else m.mantissa
    some (compare (n * Nat.pow 2 (-m.exponent).toNat) (signed * Nat.pow 2 m.exponent.toNat))
  | none =>
    if magnitudeBits x = infinityBits then some (if isNegative x then .gt else .lt) else none

/-- How two doubles compare; `none` if one of them is NaN. -/
def compare? (x y : Float) : Option Ordering :=
  if x < y then some .lt
  else if y < x then some .gt
  else if x == y then some .eq
  else none

end SmallScheme.Binary64
