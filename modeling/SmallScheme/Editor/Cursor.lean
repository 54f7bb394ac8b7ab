import SmallScheme.Editor.Position
import SmallScheme.Text.Blank

/-!
# Around the cursor

The word at a position, the text before it on its line, and the head of the form
that is being typed there. Lines end at every line break, as an editor shows them.
-/

namespace SmallScheme.Editor

/-- What ends a word under the cursor. -/
def isDelimiter (c : Char) : Bool :=
  c == ' ' || c == '\t' || c == '(' || c == ')' || c == '\n' || c == '\r'

/-- The line of a position, with its line break. -/
def lineAt? (text : String) (line : Nat) : Option (List Char) :=
  (Text.lines Text.isLineBreak text.toList)[line]?

/-- The characters before a column of a line that belong to its word, last first. -/
def wordBefore (line : List Char) (column : Nat) : List Char :=
  (line.take column).reverse.takeWhile (fun c => !isDelimiter c)

/-- The characters from a column of a line on that belong to its word. -/
def wordAfter (line : List Char) (column : Nat) : List Char :=
  (line.drop column).takeWhile (fun c => !isDelimiter c)

/-- A word and where it starts. There is none between two delimiters. -/
structure WordAt where
  word? : Option String
  start : Position
deriving Repr, DecidableEq

/-- Why there is no place in a text for a position. -/
inductive CursorFault where
  | beyondLine
deriving Repr, DecidableEq

/-- The word at a position. A line beyond the text has none; a column beyond its
line is a fault. -/
def wordAt (text : String) (p : Position) : Except CursorFault WordAt :=
  match lineAt? text p.line with
  | none => .ok { word? := none, start := p }
  | some line =>
    if p.column ≤ line.length then
      let before := wordBefore line p.column
      let word := before.reverse ++ wordAfter line p.column
      .ok {
        word? := if word.isEmpty then none else some (String.ofList word)
        start := { p with column := p.column - before.length } }
    else .error .beyondLine

/-- The text of a line up to a position. -/
def lineBefore (text : String) (p : Position) : String :=
  match lineAt? text p.line with
  | none => ""
  | some line => String.ofList (line.take p.column)

/-- The text after the last opening parenthesis, if there is one. -/
def afterLastOpening? (cs : List Char) : Option (List Char) :=
  if cs.contains '(' then some (cs.reverse.takeWhile (· != '(')).reverse else none

/-- The head of the innermost form that a line is in the middle of. -/
def calleeOf? (line : String) : Option String :=
  ((afterLastOpening? line.toList).bind Text.firstWord?).map String.ofList

end SmallScheme.Editor
