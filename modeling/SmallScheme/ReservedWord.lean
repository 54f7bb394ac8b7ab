/-!
# Reserved words

The keywords head special forms, the operators head arithmetic, comparison and
boolean forms. Each has one spelling, and a word that spells one is never an
identifier. `signature` says how a form is written, for the editor.
-/

namespace SmallScheme

/-- The words that head special forms. -/
inductive Keyword where
  | quote
  | define
  | assign
  | lambda
  | ifThen
  | letPlain
  | letSeq
  | letRec
  | car
  | cdr
  | cons
deriving Repr, DecidableEq

/-- The words that head operator forms. -/
inductive Operator where
  | plus
  | minus
  | times
  | divide
  | equal
  | less
  | atMost
  | greater
  | atLeast
  | and
  | or
  | not
deriving Repr, DecidableEq

namespace Keyword

/-- Every keyword, in the order in which they are listed to a user. -/
def all : List Keyword :=
  [.quote, .define, .assign, .lambda, .ifThen, .letPlain, .letSeq, .letRec, .car, .cdr, .cons]

/-- How the keyword is written. -/
def spelling : Keyword → String
  | .quote => "quote"
  | .define => "define"
  | .assign => "set!"
  | .lambda => "lambda"
  | .ifThen => "if"
  | .letPlain => "let"
  | .letSeq => "let*"
  | .letRec => "letrec"
  | .car => "car"
  | .cdr => "cdr"
  | .cons => "cons"

/-- The name under which logs list the keyword. -/
def label : Keyword → String
  | .quote => "QUOTE"
  | .define => "DEFINE"
  | .assign => "ASSIGN"
  | .lambda => "LAMBDA"
  | .ifThen => "IF"
  | .letPlain => "LET"
  | .letSeq => "LETSEQ"
  | .letRec => "LETREC"
  | .car => "CAR"
  | .cdr => "CDR"
  | .cons => "CONS"

/-- The words that stand after the keyword in its form. -/
def parameters : Keyword → List String
  | .quote => ["datum"]
  | .define | .assign => ["name", "value"]
  | .lambda => ["(formals)", "body"]
  | .ifThen => ["test", "then", "else"]
  | .letPlain | .letSeq | .letRec => ["((name", "value)", "...)", "body"]
  | .car | .cdr => ["xs"]
  | .cons => ["x", "xs"]

/-- The keyword that a word spells. -/
def ofSpelling? (word : String) : Option Keyword :=
  all.find? (·.spelling = word)

theorem mem_all (k : Keyword) : k ∈ all := by
  cases k <;> simp [all]

theorem spelling_injective {a b : Keyword} (h : a.spelling = b.spelling) : a = b := by
  cases a <;> cases b <;> simp_all [spelling]

end Keyword

namespace Operator

/-- Every operator, in the order in which they are listed to a user. -/
def all : List Operator :=
  [.plus, .minus, .times, .divide, .equal, .less, .atMost, .greater, .atLeast, .and, .or, .not]

/-- How the operator is written. -/
def spelling : Operator → String
  | .plus => "+"
  | .minus => "-"
  | .times => "*"
  | .divide => "/"
  | .equal => "="
  | .less => "<"
  | .atMost => "<="
  | .greater => ">"
  | .atLeast => ">="
  | .and => "and"
  | .or => "or"
  | .not => "not"

/-- The name under which logs list the operator. -/
def label : Operator → String
  | .plus => "PLUS"
  | .minus => "MINUS"
  | .times => "MULT"
  | .divide => "DIV"
  | .equal => "EQUAL"
  | .less => "LT"
  | .atMost => "LE"
  | .greater => "GT"
  | .atLeast => "GE"
  | .and => "AND"
  | .or => "OR"
  | .not => "NOT"

/-- The words that stand after the operator in its form. -/
def parameters : Operator → List String
  | .plus | .times => ["nums..."]
  | .minus | .divide => ["x", "nums..."]
  | .equal | .less | .atMost | .greater | .atLeast => ["x", "y..."]
  | .and | .or => ["bools..."]
  | .not => ["bool"]

/-- The operator that a word spells. -/
def ofSpelling? (word : String) : Option Operator :=
  all.find? (·.spelling = word)

theorem mem_all (o : Operator) : o ∈ all := by
  cases o <;> simp [all]

theorem spelling_injective {a b : Operator} (h : a.spelling = b.spelling) : a = b := by
  cases a <;> cases b <;> simp_all [spelling]

end Operator

end SmallScheme
