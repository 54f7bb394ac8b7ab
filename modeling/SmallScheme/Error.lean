import SmallScheme.Datum.Basic

/-!
# Errors

Each constructor of `Error` is a cause; `Error.kind` sorts the causes and
`Error.message` words them. Kinds form a tree under `general`. A `Fault` is an
error or an integer with too many digits; only errors are reported and survived.
-/

namespace SmallScheme

/-- The kinds of error. -/
inductive ErrorKind where
  | general
  | lexing
  | parsing
  /-- Text that ends inside a list. -/
  | unterminated
  | runtime
  | name
  | arity
  | type
deriving Repr, DecidableEq

namespace ErrorKind

/-- Every kind. -/
def all : List ErrorKind :=
  [.general, .lexing, .parsing, .unterminated, .runtime, .name, .arity, .type]

/-- The kind that a kind is a case of. -/
def parent? : ErrorKind → Option ErrorKind
  | .general => none
  | .lexing | .parsing | .runtime => some .general
  | .unterminated => some .parsing
  | .name | .arity | .type => some .runtime

/-- A kind and those it is a case of, up to `general`. -/
def lineage : ErrorKind → List ErrorKind
  | .general => [.general]
  | .lexing => [.lexing, .general]
  | .parsing => [.parsing, .general]
  | .unterminated => [.unterminated, .parsing, .general]
  | .runtime => [.runtime, .general]
  | .name => [.name, .runtime, .general]
  | .arity => [.arity, .runtime, .general]
  | .type => [.type, .runtime, .general]

/-- Each kind in a lineage is followed by its parent. -/
theorem lineage_eq (k : ErrorKind) :
    k.lineage = k :: (k.parent?.map lineage).getD [] := by
  cases k <;> rfl

/-- The full name of a kind, as logs give it. -/
def fullName : ErrorKind → String
  | .general => "RSchemeError"
  | .lexing => "RSchemeLexingError"
  | .parsing => "RSchemeParsingError"
  | .unterminated => "RSchemeExprNotTerminatedError"
  | .runtime => "RSchemeRuntimeError"
  | .name => "RSchemeNameError"
  | .arity => "RSchemeArityError"
  | .type => "RSchemeTypeError"

/-- The kind of a full name. -/
def ofFullName? (s : String) : Option ErrorKind :=
  all.find? (·.fullName = s)

/-- The word that a report puts before the message. -/
def label (k : ErrorKind) : String :=
  if k.lineage.contains .lexing then "LEXING ERROR"
  else if k.lineage.contains .parsing then "PARSING ERROR"
  else if k.lineage.contains .runtime then "RUNTIME ERROR"
  else "ERROR"

end ErrorKind

/-- What can go wrong with a program. The texts are those of the data at fault. -/
inductive Error where
  /-- A word that is no token. -/
  | unrecognized (word : String)
  /-- A double quote without a partner, with the text after it. -/
  | unterminatedString (text : String)
  /-- A closing parenthesis with nothing to close. -/
  | unmatchedClose
  /-- So many lists are still open at the end of the text. -/
  | unclosed (depth : Nat)
  | unbound (name : String)
  | usedBeforeDefined (name : String)
  | notApplicable (text : String)
  | notExpression (kind : String) (text : String)
  | divisionByZero
  | overflow (op : Operator) (cause : Overflow)
  | depthExceeded
  | notBindable (text : String)
  /-- The first argument of a defining form is not an identifier. -/
  | nameExpected (form : Keyword) (text : String)
  | parameterListExpected (text : String)
  | parameterExpected (text : String)
  | repeatedParameter
  | bindingListExpected (form : Keyword) (text : String)
  | bindingExpected (form : Keyword) (text : String)
  | listExpected (form : Keyword) (text : String)
  | emptyList (form : Keyword)
  | numberExpected (op : Operator) (text : String)
  | booleanExpected (op : Operator) (text : String)
  /-- A special form with the wrong number of parts. -/
  | formArity (form : Keyword)
  /-- An operator with the wrong number of operands. -/
  | operatorArity (op : Operator)
  | callArity (closure : String) (expected received : Nat)
deriving Repr, DecidableEq

/-- Why a step did not succeed. -/
inductive Fault where
  | error (e : Error)
  | oversized (o : Oversized)
deriving Repr, DecidableEq

/-- The wording of an overflow. -/
def Overflow.message : Overflow → String
  | .conversion => "int too large to convert to float"
  | .quotient => "integer division result too large for a float"

/-- The name of an arithmetic operator in an overflow message. -/
def Operator.verb : Operator → String
  | .plus => "add"
  | .minus => "sub"
  | .times => "mult"
  | .divide => "div"
  | o => o.spelling

/-- What a special form asks for. -/
def Keyword.usage (k : Keyword) : String :=
  match k with
  | .quote | .car | .cdr => k.spelling ++ " expects exactly 1 argument"
  | .cons => k.spelling ++ " expects exactly 2 arguments"
  | .define | .assign =>
    k.spelling ++ " requires exactly 2 arguments: (" ++ k.spelling ++ " name value)"
  | .lambda => "lambda requires a parameter list and a body"
  | .ifThen => "if requires a condition, a then-expression and an optional else-expression"
  | .letPlain | .letSeq | .letRec => k.spelling ++ " requires a binding list and a body"

/-- What an operator asks for. -/
def Operator.usage (o : Operator) : String :=
  match o with
  | .not => "not expects exactly 1 argument"
  | _ => o.spelling ++ " requires at least 1 argument"

namespace Error

/-- The kind of an error. -/
def kind : Error → ErrorKind
  | .unrecognized _ | .unterminatedString _ => .lexing
  | .unmatchedClose => .parsing
  | .unclosed _ => .unterminated
  | .unbound _ => .name
  | .usedBeforeDefined _ | .notApplicable _ | .notExpression .. | .divisionByZero
  | .overflow .. | .depthExceeded => .runtime
  | .notBindable _ | .nameExpected .. | .parameterListExpected _ | .parameterExpected _
  | .repeatedParameter | .bindingListExpected .. | .bindingExpected .. | .listExpected ..
  | .emptyList _ | .numberExpected .. | .booleanExpected .. => .type
  | .formArity _ | .operatorArity _ | .callArity .. => .arity

/-- The wording of an error. -/
def message : Error → String
  | .unrecognized word => "Lexing error: unrecognized token " ++ word
  | .unterminatedString text => "Lexing error: unterminated string " ++ text
  | .unmatchedClose => "Syntax error: unmatched )"
  | .unclosed depth => "Syntax error: " ++ toString depth ++ " unclosed ("
  | .unbound name => "unbound identifier " ++ name
  | .usedBeforeDefined name => "identifier " ++ name ++ " used before its value was defined"
  | .notApplicable text => "cannot apply " ++ text
  | .notExpression kind text => "unrecognized token type " ++ kind ++ ": " ++ text
  | .divisionByZero => "division by zero"
  | .overflow op cause => "numeric overflow in " ++ op.verb ++ ": " ++ cause.message
  | .depthExceeded => "maximum recursion depth exceeded"
  | .notBindable text => "cannot bind " ++ text ++ " as an identifier"
  | .nameExpected form text =>
    form.spelling ++ " first argument must be an identifier, got " ++ text
  | .parameterListExpected text => "lambda parameter list must be a list, got " ++ text
  | .parameterExpected text => "lambda parameter must be an identifier, got " ++ text
  | .repeatedParameter => "lambda parameters must be distinct"
  | .bindingListExpected form text => form.spelling ++ " bindings must be a list, got " ++ text
  | .bindingExpected form text =>
    form.spelling ++ " binding must be of the form (name value), got " ++ text
  | .listExpected form text => form.spelling ++ " applied to non-list " ++ text
  | .emptyList form => form.spelling ++ " applied to empty list"
  | .numberExpected op text => op.spelling ++ " operator applied to non-number " ++ text
  | .booleanExpected op text => op.spelling ++ " operator applied to non-boolean " ++ text
  | .formArity form => form.usage
  | .operatorArity op => op.usage
  | .callArity closure expected received =>
    closure ++ " called with wrong number of arguments: expected " ++ toString expected ++
      ", received " ++ toString received

end Error

/-- The wording of an integer with too many digits. -/
def Oversized.message (o : Oversized) : String :=
  let value := match o with
    | .literal digits _ => ": value has " ++ toString digits ++ " digits"
    | .written .. => ""
  "Exceeds the limit (" ++ toString digitLimit ++ " digits) for integer string conversion" ++
    value ++ "; use sys.set_int_max_str_digits() to increase the limit"

end SmallScheme
