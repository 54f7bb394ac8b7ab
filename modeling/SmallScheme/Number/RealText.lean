import SmallScheme.Number.Shortest
import SmallScheme.Text.Numeral

/-!
# The text of real numbers

Writing: the shortest digits, placed by a `Style`. Reading: a decimal literal, a
sign and an exponent allowed, rounded to the nearest double.
-/

namespace SmallScheme.Binary64

/-- How the digits of a real number are laid out. -/
structure Style where
  /-- The least decimal exponent written without an exponent part. -/
  least : Int
  /-- The decimal exponent from which an exponent part is written. -/
  bound : Int
  /-- What introduces the exponent part. -/
  mark : Char
  /-- The least number of digits of the exponent. -/
  width : Nat
  /-- The text of positive infinity. -/
  infinityText : String
  /-- The text of NaN. -/
  nanText : String

/-- Positional from `0.0001` up to sixteen places before the point, always with a
digit after the point; otherwise an exponent with a sign and two digits or more. -/
def style : Style :=
  { least := -4, bound := 16, mark := 'e', width := 2, infinityText := "inf", nanText := "nan" }

/-- The decimal digits of a number, without trailing zeros beyond the first digit. -/
def significantDigits (n : Nat) : List Char :=
  match ((Nat.toDigits 10 n).reverse.dropWhile (· == '0')).reverse with
  | [] => ['0']
  | ds => ds

/-- Digits with the point after the first `point` of them; zeros fill the gap. -/
def positional (ds : List Char) (point : Int) : List Char :=
  if point ≤ 0 then
    '0' :: '.' :: (List.replicate (-point).toNat '0' ++ ds)
  else if ds.length ≤ point.toNat then
    ds ++ List.replicate (point.toNat - ds.length) '0' ++ ['.', '0']
  else
    ds.take point.toNat ++ '.' :: ds.drop point.toNat

/-- One digit, the others after a point, and the exponent part. -/
def Style.scientific (s : Style) (ds : List Char) (exponent : Int) : List Char :=
  let fraction := ds.drop 1
  let power := Nat.toDigits 10 exponent.natAbs
  ds.take 1 ++ (if fraction.isEmpty then [] else '.' :: fraction) ++
    s.mark :: (if exponent < 0 then '-' else '+') ::
      (List.replicate (s.width - power.length) '0' ++ power)

/-- The text of a positive decimal. -/
def Style.decimal (s : Style) (d : Decimal) : List Char :=
  let point := (Nat.toDigits 10 d.digits).length + d.exponent
  let ds := significantDigits d.digits
  if s.least ≤ point - 1 ∧ point - 1 < s.bound then positional ds point
  else s.scientific ds (point - 1)

/-- The text of a magnitude. -/
def Style.magnitude (s : Style) (m : Magnitude) : List Char :=
  if m.mantissa = 0 then ['0', '.', '0'] else s.decimal m.shortest

/-- The text of a double. -/
def Style.text (s : Style) (x : Float) : String :=
  let sign := if isNegative x then "-" else ""
  match magnitude? x with
  | some m => sign ++ String.ofList (s.magnitude m)
  | none => if magnitudeBits x = infinityBits then sign ++ s.infinityText else s.nanText

/-! ## Reading -/

/-- The double nearest to `whole.fraction`. -/
def ofDecimalParts (whole fraction : List Char) : Float :=
  ofQuotient (Text.ofDigits (whole ++ fraction)) (Nat.pow 10 fraction.length)

/-- The double nearest to `digits * 10 ^ exponent`. Exponents that far exceed the
range of a double are cut short, which does not change the result. -/
def ofDecimal (digits : Nat) (exponent : Int) : Float :=
  if digits = 0 then ofQuotient 0 1
  else
    let size : Int := (Nat.toDigits 10 digits).length
    if exponent + size > 400 then infinity
    else if exponent + size < -400 then ofQuotient 0 1
    else ofQuotient (digits * Nat.pow 10 exponent.toNat) (Nat.pow 10 (-exponent).toNat)

/-- A power of ten, with an optional sign. -/
def readPower? (cs : List Char) : Option Int :=
  let (negative, digits) := Text.splitSign cs
  if Text.isDigits digits then
    let n : Int := Text.ofDigits digits
    some (if negative then -n else n)
  else none

/-- An unsigned decimal: digits, perhaps a point among them or at one end, perhaps
an exponent part. -/
def readMagnitude? (cs : List Char) : Option Float :=
  let whole := cs.takeWhile Char.isDigit
  let rest := cs.dropWhile Char.isDigit
  let (fraction, rest) := match rest with
    | '.' :: r => (r.takeWhile Char.isDigit, r.dropWhile Char.isDigit)
    | r => ([], r)
  if whole.isEmpty && fraction.isEmpty then none
  else
    let digits := Text.ofDigits (whole ++ fraction)
    match rest with
    | [] => some (ofDecimal digits (-fraction.length))
    | c :: r =>
      if c.toLower == 'e' then
        (readPower? r).map (fun e => ofDecimal digits (e - fraction.length))
      else none

/-- Infinity or NaN by name, in any case, or an unsigned decimal. -/
def readUnsigned? (cs : List Char) : Option Float :=
  let name := cs.map Char.toLower
  if name == "inf".toList || name == "infinity".toList then some infinity
  else if name == "nan".toList then some (Float.ofBits (infinityBits + Nat.pow 2 51).toUInt64)
  else readMagnitude? cs

/-- Read the text of a double: what `Style.text` writes, and every other spelling of
a decimal numeral. -/
def read? (text : String) : Option Float := do
  let cs ← Text.plainNumeral? text.toList
  let (negative, body) := Text.splitSign cs
  return withSign negative (← readUnsigned? body)

end SmallScheme.Binary64
