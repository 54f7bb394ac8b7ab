import SmallScheme.Text.Blank

/-!
# Lexemes

The first cut of a text: parentheses, quoted strings and words, each with the
offset where it starts. The scanner reads one character at a time, so scanning
`a ++ b` is scanning `b` from where `a` left off.
-/

namespace SmallScheme

/-- A piece of source text. -/
inductive Lexeme where
  | opening
  | closing
  /-- The text between two double quotes. -/
  | quoted (content : List Char)
  /-- The text after a double quote that no other one follows. -/
  | unterminated (content : List Char)
  /-- A maximal run of characters that are neither blank nor delimiters. -/
  | word (spelling : List Char)
deriving Repr, DecidableEq

/-- A lexeme and the offset of its first character. -/
structure Located where
  start : Nat
  lexeme : Lexeme
deriving Repr, DecidableEq

/-- What the scanner is in the middle of. Texts are kept last character first. -/
inductive ScanMode where
  | between
  | word (start : Nat) (chars : List Char)
  | quoted (start : Nat) (chars : List Char)
deriving Repr, DecidableEq

/-- A scanner: the lexemes found, the offset of the next character, and the mode. -/
structure Scanner where
  found : Array Located := #[]
  offset : Nat := 0
  mode : ScanMode := .between

namespace Scanner

/-- Add a lexeme that starts at `start`. -/
def emit (s : Scanner) (start : Nat) (lexeme : Lexeme) : Scanner :=
  { s with found := s.found.push { start, lexeme } }

/-- End the word in progress, if there is one. -/
def endWord (s : Scanner) : Scanner :=
  match s.mode with
  | .word start chars => { s.emit start (.word chars.reverse) with mode := .between }
  | _ => s

/-- Read a character outside a string. -/
def readCode (s : Scanner) (c : Char) : Scanner :=
  if c = '(' then s.endWord.emit s.offset .opening
  else if c = ')' then s.endWord.emit s.offset .closing
  else if c = '"' then { s.endWord with mode := .quoted s.offset [] }
  else if Text.isBlank c then s.endWord
  else match s.mode with
    | .word start chars => { s with mode := .word start (c :: chars) }
    | _ => { s with mode := .word s.offset [c] }

/-- Read a character. -/
def read (s : Scanner) (c : Char) : Scanner :=
  let next := match s.mode with
    | .quoted start chars =>
      if c = '"' then { s.emit start (.quoted chars.reverse) with mode := .between }
      else { s with mode := .quoted start (c :: chars) }
    | _ => s.readCode c
  { next with offset := s.offset + 1 }

/-- The lexemes of the text that was read, now that it has ended. -/
def finish (s : Scanner) : List Located :=
  match s.mode with
  | .quoted start chars => (s.emit start (.unterminated chars.reverse)).found.toList
  | _ => s.endWord.found.toList

end Scanner

/-- The lexemes of a text with their offsets, in order. -/
def locatedLexemes (text : List Char) : List Located :=
  (text.foldl Scanner.read {}).finish

/-- The lexemes of a text, in order. -/
def lexemes (text : List Char) : List Lexeme :=
  (locatedLexemes text).map (·.lexeme)

end SmallScheme
