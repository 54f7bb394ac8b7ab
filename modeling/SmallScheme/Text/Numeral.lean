import SmallScheme.Text.Blank
import SmallScheme.Text.DecimalDigit

/-!
# Numerals

A numeral from outside may use the digits of any script, may have an underscore
between two digits and blanks around it. Its plain spelling has ASCII digits only
and neither underscores nor blanks, so that one grammar serves all spellings.
-/

namespace SmallScheme.Text

/-- A digit of any script as the ASCII digit of its worth; any other character is
left alone. -/
def plainDigit (c : Char) : Char :=
  match digitValue? c with
  | some d => Nat.digitChar d
  | none => c

/-- `ungroup?` of what follows a character, which was a digit if `afterDigit`. -/
def ungroupFrom? (afterDigit : Bool) : List Char → Option (List Char)
  | [] => some []
  | '_' :: cs =>
    if afterDigit && (cs.head?.map Char.isDigit).getD false then ungroupFrom? false cs else none
  | c :: cs => (ungroupFrom? c.isDigit cs).map (c :: ·)

/-- The text without its underscores, each of which must stand between two digits. -/
def ungroup? (cs : List Char) : Option (List Char) :=
  ungroupFrom? false cs

/-- The plain spelling of a numeral. -/
def plainNumeral? (cs : List Char) : Option (List Char) :=
  ungroup? ((trim cs).map plainDigit)

/-- Whether a text starts with a minus sign, and the text without its sign. -/
def splitSign : List Char → Bool × List Char
  | '-' :: cs => (true, cs)
  | '+' :: cs => (false, cs)
  | cs => (false, cs)

/-- One ASCII digit or more. -/
def isDigits (cs : List Char) : Bool :=
  !cs.isEmpty && cs.all Char.isDigit

/-- The number that ASCII digits denote, first digit leading. -/
def ofDigits (cs : List Char) : Nat :=
  cs.foldl (fun n c => 10 * n + (c.toNat - '0'.toNat)) 0

end SmallScheme.Text
