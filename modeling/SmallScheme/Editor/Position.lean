import SmallScheme.Text.Lines

/-!
# Positions

Places in a text by line and column, both counted from zero and in characters.
Only newlines end a line here.
-/

namespace SmallScheme.Editor

/-- A line and a column. -/
structure Position where
  line : Nat
  column : Nat
deriving Repr, DecidableEq

/-- From one position up to another. -/
structure Range where
  start : Position
  stop : Position
deriving Repr, DecidableEq

/-- The order of reading. -/
def Position.before (p q : Position) : Bool :=
  p.line < q.line || (p.line == q.line && p.column < q.column)

/-- So many characters of a line from a position on. -/
def Range.ofLength (start : Position) (length : Nat) : Range :=
  { start, stop := { start with column := start.column + length } }

/-- The position of an offset: the newlines before it, and the characters since the
last of them. -/
def positionAt (text : List Char) (offset : Nat) : Position :=
  let before := text.take offset
  { line := before.countP Text.isNewline
    column := (before.reverse.takeWhile (fun c => !Text.isNewline c)).length }

end SmallScheme.Editor
