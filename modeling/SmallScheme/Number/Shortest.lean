import SmallScheme.Number.Binary64

/-!
# Shortest decimal digits

The fewest decimal digits that read back as the same double. The reals that
round to a double form an interval around it; for one digit, two digits, and so
on, the two neighbours of the value on that decimal grid are tested against the
interval, and the first grid with a hit wins. Of two hits the nearer is taken, of
two equally near the even one. All comparisons are between natural numbers.
-/

namespace SmallScheme.Binary64

/-- `digits * 10 ^ exponent`. -/
structure Decimal where
  digits : Nat
  exponent : Int
deriving Repr, DecidableEq

/-- The reals that round to a positive double: `low / den` to `high / den` around
`value / den`, the two ends included or not. -/
structure Interval where
  low : Nat
  value : Nat
  high : Nat
  den : Nat
  closed : Bool

/-- The interval of a magnitude. It reaches half way to the neighbours; below a
power of two the lower neighbour is twice as near. -/
def Magnitude.interval (m : Magnitude) : Interval :=
  let unit := Nat.pow 2 (m.exponent - 2).toNat
  let gap := if m.mantissa = Nat.pow 2 52 ∧ m.exponent ≠ minExponent then 1 else 2
  { low := (4 * m.mantissa - gap) * unit
    value := 4 * m.mantissa * unit
    high := (4 * m.mantissa + 2) * unit
    den := Nat.pow 2 (2 - m.exponent).toNat
    closed := m.mantissa % 2 == 0 }

/-- How a decimal compares with `num / den`. -/
def Decimal.compareQuotient (d : Decimal) (num den : Nat) : Ordering :=
  compare (d.digits * Nat.pow 10 d.exponent.toNat * den) (num * Nat.pow 10 (-d.exponent).toNat)

/-- Whether a decimal lies in an interval. -/
def Interval.contains (i : Interval) (d : Decimal) : Bool :=
  let low := d.compareQuotient i.low i.den
  let high := d.compareQuotient i.high i.den
  (low == .gt || (i.closed && low == .eq)) && (high == .lt || (i.closed && high == .eq))

/-- The exponent `k` with `10 ^ (k - 1) ≤ value < 10 ^ k`: an estimate from the
number of bits, which is off by one at most, and its correction. -/
def Interval.leadingExponent (i : Interval) : Int :=
  let bits : Int := (i.value.log2 : Int) - i.den.log2
  let k := bits * 30103 / 100000 + 1
  if ({ digits := 1, exponent := k } : Decimal).compareQuotient i.value i.den != .gt then k + 1
  else if ({ digits := 1, exponent := k - 1 } : Decimal).compareQuotient i.value i.den == .gt then
    k - 1
  else k

/-- The greatest multiple of `10 ^ exponent` that is not above the value. -/
def Interval.floorAt (i : Interval) (exponent : Int) : Decimal :=
  { digits := i.value * Nat.pow 10 (-exponent).toNat / (i.den * Nat.pow 10 exponent.toNat)
    exponent }

/-- Of two neighbours on a grid, the one nearer to the value; of two equally near,
the even one. -/
def Interval.nearer (i : Interval) (below above : Decimal) : Decimal :=
  -- the midpoint of the two, on the grid of half steps
  let middle : Decimal :=
    { digits := 5 * (below.digits + above.digits), exponent := below.exponent - 1 }
  match middle.compareQuotient i.value i.den with
  | .lt => above
  | .gt => below
  | .eq => if below.digits % 2 == 0 then below else above

/-- The decimal on the grid `10 ^ exponent` that lies in the interval, if one does. -/
def Interval.onGrid? (i : Interval) (exponent : Int) : Option Decimal :=
  let below := i.floorAt exponent
  let above := { below with digits := below.digits + 1 }
  match i.contains below, i.contains above with
  | true, true => some (i.nearer below above)
  | true, false => some below
  | false, true => some above
  | false, false => none

/-- Seventeen digits always suffice. -/
def maxDigits : Nat := 17

/-- The fewest decimal digits that read back as this magnitude. -/
def Magnitude.shortest (m : Magnitude) : Decimal :=
  let i := m.interval
  let k := i.leadingExponent
  ((List.range maxDigits).findSome? (fun n : Nat => i.onGrid? (k - (n + 1 : Nat)))).getD
    (i.floorAt (k - maxDigits))

end SmallScheme.Binary64
