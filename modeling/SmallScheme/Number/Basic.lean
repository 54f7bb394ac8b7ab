import SmallScheme.Number.RealText

/-!
# Numbers

An integer of any size or a real. Integers stay exact under `+`, `-` and `*`, and
under a division that leaves no remainder; an integer that meets a real is first
rounded to the nearest real. Comparison never rounds.
-/

namespace SmallScheme

/-- An integer or a real number. -/
inductive Number where
  | int (n : Int)
  | real (x : Float)
deriving Inhabited

/-- Why an arithmetic step has no real result. -/
inductive Overflow where
  /-- An integer is too large to become a real. -/
  | conversion
  /-- The quotient of two integers is too large for a real. -/
  | quotient
deriving Repr, DecidableEq

/-- Why an arithmetic step has no result. -/
inductive ArithmeticFault where
  | divisionByZero
  | overflow (cause : Overflow)
deriving Repr, DecidableEq

/-- Integers with more decimal digits than this are neither read nor written. -/
def digitLimit : Nat := 4300

/-- An integer with more decimal digits than the limit. -/
inductive Oversized where
  /-- It was met as a literal of so many digits. -/
  | literal (digits : Nat) (large : digitLimit < digits := by omega)
  /-- It was to be written as text. -/
  | written (n : Int) (large : Nat.pow 10 digitLimit ≤ n.natAbs)
deriving Repr, DecidableEq

namespace Number

/-- The number as a real. -/
def toReal : Number → Except ArithmeticFault Float
  | .int n =>
    match Binary64.ofInt? n with
    | some x => .ok x
    | none => .error (.overflow .conversion)
  | .real x => .ok x

/-- Apply an operation on integers to two integers, and one on reals to any other
pair. -/
def combine (onInts : Int → Int → Int) (onReals : Float → Float → Float) :
    Number → Number → Except ArithmeticFault Number
  | .int a, .int b => .ok (.int (onInts a b))
  | a, b => do return .real (onReals (← a.toReal) (← b.toReal))

/-- The sum. -/
def add : Number → Number → Except ArithmeticFault Number :=
  combine (· + ·) (· + ·)

/-- The difference. -/
def sub : Number → Number → Except ArithmeticFault Number :=
  combine (· - ·) (· - ·)

/-- The product. -/
def mul : Number → Number → Except ArithmeticFault Number :=
  combine (· * ·) (· * ·)

/-- The number with its sign turned; `0.0` becomes `-0.0`. -/
def neg : Number → Number
  | .int n => .int (-n)
  | .real x => .real (-x)

/-- Zero, as an integer or as a real of either sign. -/
def isZero : Number → Bool
  | .int n => n == 0
  | .real x => x == 0

/-- The quotient: exact if both are integers and nothing remains, otherwise real. -/
def div (a d : Number) : Except ArithmeticFault Number :=
  if d.isZero then .error .divisionByZero
  else match a, d with
    | .int a, .int d =>
      if a % d = 0 then .ok (.int (a / d))
      else match Binary64.ofIntQuotient? a d with
        | some x => .ok (.real x)
        | none => .error (.overflow .quotient)
    | a, d => do return .real ((← a.toReal) / (← d.toReal))

/-- How two numbers compare, without rounding; `none` if one of them is NaN. -/
def compare? : Number → Number → Option Ordering
  | .int a, .int b => some (compare a b)
  | .int a, .real y => Binary64.compareInt? a y
  | .real x, .int b => (Binary64.compareInt? b x).map Ordering.swap
  | .real x, .real y => Binary64.compare? x y

/-- The number that decimal digits denote, unless there are too many of them. -/
def ofDigits (cs : List Char) : Except Oversized Nat :=
  if h : cs.length ≤ digitLimit then .ok (Text.ofDigits cs) else .error (.literal cs.length)

/-- The integer that a text denotes, unless it has too many digits; `none` for any
other text. -/
def readInt? (text : String) : Option (Except Oversized Int) := do
  let cs ← Text.plainNumeral? text.toList
  let (negative, digits) := Text.splitSign cs
  if Text.isDigits digits then
    return (ofDigits digits).map fun n : Nat => if negative then -(n : Int) else (n : Int)
  else none

/-- The decimal text of an integer, unless it has too many digits. -/
def intText (n : Int) : Except Oversized String :=
  if h : n.natAbs < Nat.pow 10 digitLimit then
    let digits := Nat.toDigits 10 n.natAbs
    .ok (String.ofList (if n < 0 then '-' :: digits else digits))
  else .error (.written n (Nat.le_of_not_lt h))

/-- The text of a number. -/
def text : Number → Except Oversized String
  | .int n => intText n
  | .real x => .ok (Binary64.style.text x)

end Number

end SmallScheme
