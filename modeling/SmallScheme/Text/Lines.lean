/-!
# Lines

Three readings of a text as lines: cut at a chosen set of line breaks with the
breaks kept (`lines`), cut at newlines only with the newlines dropped
(`newlineParts`), and with every style of line end turned into a newline first
(`unifyNewlines`).
-/

namespace SmallScheme.Text

/-- The newline, the only line end that source positions count. -/
def isNewline (c : Char) : Bool :=
  c == '\n'

/-- Every character that ends a line for a reader of the text on a screen. -/
def isLineBreak (c : Char) : Bool :=
  let n := c.toNat
  (0x0A ≤ n && n ≤ 0x0D) || (0x1C ≤ n && n ≤ 0x1E) || n == 0x85 || n == 0x2028 || n == 0x2029

/-- `lines` with the part of the current line already read, last character first. -/
def linesFrom (isBreak : Char → Bool) (current : List Char) : List Char → List (List Char)
  | [] => if current.isEmpty then [] else [current.reverse]
  | '\r' :: '\n' :: cs => ('\n' :: '\r' :: current).reverse :: linesFrom isBreak [] cs
  | c :: cs =>
    if isBreak c then (c :: current).reverse :: linesFrom isBreak [] cs
    else linesFrom isBreak (c :: current) cs

/-- Cut a text after each break. The breaks stay at the ends of their lines, a
carriage return and the newline after it are one break, and no empty line
stands at the end. -/
def lines (isBreak : Char → Bool) (cs : List Char) : List (List Char) :=
  linesFrom isBreak [] cs

/-- The parts between newlines: one more than there are newlines. -/
def newlineParts : List Char → List (List Char)
  | [] => [[]]
  | c :: cs =>
    if isNewline c then [] :: newlineParts cs
    else match newlineParts cs with
      | [] => [[c]]
      | part :: parts => (c :: part) :: parts

/-- Turn `\r\n` and a lone `\r` into `\n`. -/
def unifyNewlines : List Char → List Char
  | [] => []
  | '\r' :: '\n' :: cs => '\n' :: unifyNewlines cs
  | c :: cs => (if c == '\r' then '\n' else c) :: unifyNewlines cs

/-- A line without one newline at its end. -/
def dropNewline (line : List Char) : List Char :=
  if line.getLast? = some '\n' then line.dropLast else line

/-- A line without any of the carriage returns and newlines at its end. -/
def dropLineEnds (line : List Char) : List Char :=
  (line.reverse.dropWhile (fun c => c == '\n' || c == '\r')).reverse

end SmallScheme.Text
