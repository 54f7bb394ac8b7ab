/-!
# Letter case

Identifiers are ASCII, so folding their case is the ASCII rule. Words from
outside may hold any character: the folds below also move the few characters
beyond ASCII whose other case is an ASCII letter, and leave the rest alone,
which is enough to compare the result with an ASCII word.
-/

namespace SmallScheme.Text

/-- Lower case. The Kelvin sign is the one character beyond ASCII whose lower
case is an ASCII letter. -/
def toLower (c : Char) : Char :=
  if c.toNat = 0x212A then 'k' else c.toLower

/-- Upper case. The dotless i and the long s are the characters beyond ASCII
whose upper case is a single ASCII letter. -/
def toUpper (c : Char) : Char :=
  if c.toNat = 0x131 then 'I' else if c.toNat = 0x17F then 'S' else c.toUpper

/-- A word in lower case. -/
def lowerCase (s : String) : String :=
  String.ofList (s.toList.map toLower)

/-- A word in upper case. -/
def upperCase (s : String) : String :=
  String.ofList (s.toList.map toUpper)

end SmallScheme.Text
