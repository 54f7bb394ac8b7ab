import SmallScheme.Datum.Text
import SmallScheme.Error
import SmallScheme.Token.Lexeme

/-!
# Tokens

A token is a lexeme with its meaning. Words are tried in turn as a reserved
word, an integer, a real, a boolean and an identifier; identifiers are folded to
lower case. The first word that is none of these ends tokenizing.
-/

namespace SmallScheme

/-- A parenthesis, a reserved word, a literal or an identifier. -/
inductive Token where
  | opening
  | closing
  | keyword (k : Keyword)
  | operator (o : Operator)
  | number (n : Number)
  | bool (b : Bool)
  | str (text : String)
  | identifier (name : String)
deriving Inhabited

namespace Token

/-! ## Words -/

/-- The parts of `[0-9]*\.[0-9]+` before and after the point. -/
def realParts? (cs : List Char) : Option (List Char × List Char) :=
  match cs.dropWhile Char.isDigit with
  | '.' :: fraction =>
    if Text.isDigits fraction then some (cs.takeWhile Char.isDigit, fraction) else none
  | _ => none

/-- A character that an identifier may start with. -/
def startsIdentifier (c : Char) : Bool :=
  c.isAlpha || c == '_'

/-- A character that an identifier may go on with. -/
def continuesIdentifier (c : Char) : Bool :=
  c.isAlphanum || c == '.' || c == '+' || c == '?' || c == '!' || c == '-'

/-- `[A-Za-z_][A-Za-z0-9.+?!-]*`. -/
def isIdentifier : List Char → Bool
  | [] => false
  | c :: cs => startsIdentifier c && cs.all continuesIdentifier

/-- An integer literal, unless it has too many digits. -/
def ofInteger (cs : List Char) : Except Fault Token :=
  match Number.ofDigits cs with
  | .ok n => .ok (.number (.int n))
  | .error o => .error (.oversized o)

/-- The token that a word stands for. -/
def ofWord (word : String) : Except Fault Token :=
  let cs := word.toList
  match Keyword.ofSpelling? word with
  | some k => .ok (.keyword k)
  | none =>
    match Operator.ofSpelling? word with
    | some o => .ok (.operator o)
    | none =>
      if Text.isDigits cs then ofInteger cs
      else match realParts? cs with
        | some (whole, fraction) => .ok (.number (.real (Binary64.ofDecimalParts whole fraction)))
        | none =>
          if word = "#t" then .ok (.bool true)
          else if word = "#f" then .ok (.bool false)
          else if isIdentifier cs then .ok (.identifier (String.ofList (cs.map Char.toLower)))
          else .error (.error (.unrecognized word))

/-- The token of a lexeme. An unterminated string is reported without its
trailing blanks. -/
def ofLexeme : Lexeme → Except Fault Token
  | .opening => .ok .opening
  | .closing => .ok .closing
  | .quoted content => .ok (.str (String.ofList content))
  | .unterminated content =>
    .error (.error (.unterminatedString (String.ofList (Text.trimEnd ('"' :: content)))))
  | .word spelling => ofWord (String.ofList spelling)

/-! ## Texts -/

/-- The name of a token's kind. -/
def kindName : Token → String
  | .opening | .closing => "paren"
  | .keyword _ => "keyword"
  | .operator _ => "operator"
  | .number (.int _) => "integer"
  | .number (.real _) => "real"
  | .bool _ => "boolean"
  | .str _ => "string"
  | .identifier _ => "identifier"

/-- The token as source text. -/
def render : Token → Except Oversized String
  | .opening => .ok "("
  | .closing => .ok ")"
  | .keyword k => .ok k.spelling
  | .operator o => .ok o.spelling
  | .number n => n.text
  | .bool b => .ok (if b then "#t" else "#f")
  | .str text => .ok ("\"" ++ text ++ "\"")
  | .identifier name => .ok name

/-- The detailed text of what a token holds. -/
def inspectValue : Token → Except Oversized String
  | .opening => .ok "<Paren.LEFT: '('>"
  | .closing => .ok "<Paren.RIGHT: ')'>"
  | .keyword k => (Datum.keyword k).inspect
  | .operator o => (Datum.operator o).inspect
  | .number n => n.text
  | .bool b => (Datum.bool b).inspect
  | .str text => .ok (Text.quoted text)
  | .identifier name => .ok (Text.quoted name)

/-- The detailed text of a token. -/
def inspect (t : Token) : Except Oversized String := do
  let kind := t.kindName
  return "Token(kind=<TokenKind." ++ kind.toUpper ++ ": '" ++ kind ++ "'>, value=" ++
    (← t.inspectValue) ++ ")"

end Token

/-! ## Texts as tokens -/

/-- The tokens before the first fault, and that fault. -/
def tokensUntilFault : List Lexeme → List Token × Option Fault
  | [] => ([], none)
  | l :: ls =>
    match Token.ofLexeme l with
    | .ok t =>
      let (ts, fault) := tokensUntilFault ls
      (t :: ts, fault)
    | .error fault => ([], some fault)

/-- The tokens of a text up to the first fault, and that fault. -/
def lex (text : String) : List Token × Option Fault :=
  tokensUntilFault (lexemes text.toList)

/-- The tokens of a text, or the first fault in it. -/
def tokenize (text : String) : Except Fault (List Token) :=
  match lex text with
  | (tokens, none) => .ok tokens
  | (_, some fault) => .error fault

end SmallScheme
