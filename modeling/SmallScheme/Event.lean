import SmallScheme.Token.Basic

/-!
# Events

What a detailed log tells of a run, each kind of event with the part of the
program that it comes from.
-/

namespace SmallScheme

/-- A step worth logging. -/
inductive Event where
  /-- A text was cut into tokens. -/
  | tokenized (tokens : List Token)
  /-- A text was complete. -/
  | parsed (exprs : List Datum)
  /-- A procedure was made. -/
  | closureMade (closure : Datum)
  /-- A procedure was called. -/
  | applied (closure : Datum) (args : List Datum)
  /-- Evaluation of an expression nested too deep. -/
  | depthExceeded (expr : Datum)
  /-- An error is about to be reported. -/
  | failed (kind : ErrorKind) (message : String)
deriving Inhabited

namespace Event

/-- The part of the program that an event comes from. -/
def source : Event → String
  | .tokenized _ | .parsed _ => "rscheme.reader.parser"
  | .closureMade _ => "rscheme.evaluation.special_forms.lambda_form"
  | .applied .. => "rscheme.evaluation.apply"
  | .depthExceeded _ => "rscheme.interpreter"
  | .failed .. => "rscheme.repl"

/-- What is logged of an event. -/
def message : Event → Except Oversized String
  | .tokenized tokens => do
    return "Tokens: [" ++ ", ".intercalate (← tokens.mapM Token.inspect) ++ "]"
  | .parsed exprs => do return "AST: " ++ (← (Datum.list exprs).inspect)
  | .closureMade closure => do return "Closure created: " ++ (← closure.inspect)
  | .applied closure args => do
    return "Applying " ++ (← closure.inspect) ++ " to " ++ (← (Datum.list args).inspect)
  | .depthExceeded expr => do
    return "Recursion limit hit while evaluating " ++ (← expr.describe)
  | .failed kind message =>
    return "Error: " ++ kind.fullName ++ "(" ++ Text.quoted message ++ ")"

/-- The line that a log shows for an event. An event whose text would hold an
integer with too many digits has none. -/
def line (e : Event) : String :=
  match e.message with
  | .ok text => "DEBUG " ++ e.source ++ ": " ++ text ++ "\n"
  | .error _ => ""

end Event

end SmallScheme
