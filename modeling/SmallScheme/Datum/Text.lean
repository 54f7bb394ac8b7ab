import SmallScheme.Datum.Basic
import SmallScheme.Marker
import SmallScheme.Text.Quoted

/-!
# The texts of a datum

Three of them:

* **render** — source text: `(1 "a" #t)`; what a session prints, and what the
  messages about operands quote;
* **inspect** — the detailed text of logs and of frames: a string is quoted, a
  symbol and a reserved word name their kind, a list stands in brackets;
* **describe** — plain text: as `inspect`, but a string, a symbol or a reserved
  word at the top stands for itself.

Each fails on an integer with too many digits, wherever it stands in the datum, and on
nothing else. Lists may nest to any depth: the limit that a host's stack puts on a
recursive printer is left out of the model.
-/

namespace SmallScheme.Datum

/-- The text of a datum that stands for itself: a string, a symbol, a reserved
word. -/
def plain? : Datum → Option String
  | .str text => some text
  | .symbol name => some name
  | .keyword k => some k.spelling
  | .operator o => some o.spelling
  | _ => none

mutual

/-- The detailed text of a datum. -/
def inspect : Datum → Except Oversized String
  | .number n => n.text
  | .bool b => .ok (if b then "True" else "False")
  | .str text => .ok (Text.quoted text)
  | .symbol name => .ok ("Symbol(" ++ Text.quoted name ++ ")")
  | .keyword k => .ok ("<Keyword." ++ k.label ++ ": '" ++ k.spelling ++ "'>")
  | .operator o => .ok ("<Operator." ++ o.label ++ ": '" ++ o.spelling ++ "'>")
  | .list items => do return "[" ++ ", ".intercalate (← inspectEach items) ++ "]"
  | .closure formals _ _ => do
    return "#<closure (" ++ " ".intercalate (← describeEach formals) ++ ")>"
  | .nil => .ok Marker.nil.text
  | .unassigned => .ok Marker.unassigned.text
  | .absent => .ok "None"

/-- The detailed texts of data, in order. -/
def inspectEach : List Datum → Except Oversized (List String)
  | [] => .ok []
  | d :: ds => do return (← inspect d) :: (← inspectEach ds)

/-- The plain texts of data, in order. -/
def describeEach : List Datum → Except Oversized (List String)
  | [] => .ok []
  | d :: ds => do
    let text ← match d.plain? with
      | some text => .ok text
      | none => inspect d
    return text :: (← describeEach ds)

end

/-- The plain text of a datum. -/
def describe (d : Datum) : Except Oversized String :=
  match d.plain? with
  | some text => .ok text
  | none => d.inspect

mutual

/-- The source text of a datum. -/
def render : Datum → Except Oversized String
  | .bool b => .ok (if b then "#t" else "#f")
  | .str text => .ok ("\"" ++ text ++ "\"")
  | .list items => do return "(" ++ " ".intercalate (← renderEach items) ++ ")"
  | .symbol name => .ok name
  | .keyword k => .ok k.spelling
  | .operator o => .ok o.spelling
  | .number n => n.text
  | .closure formals _ _ => do
    return "#<closure (" ++ " ".intercalate (← describeEach formals) ++ ")>"
  | .nil => .ok Marker.nil.text
  | .unassigned => .ok Marker.unassigned.text
  | .absent => .ok "None"

/-- The source texts of data, in order. -/
def renderEach : List Datum → Except Oversized (List String)
  | [] => .ok []
  | d :: ds => do return (← render d) :: (← renderEach ds)

end

/-- The name of a datum's kind, as the message about a datum that does not evaluate
gives it. -/
def kindName : Datum → String
  | .keyword _ => "Keyword"
  | .operator _ => "Operator"
  | .nil => "NilType"
  | .unassigned => "UnassignedType"
  | .absent => "NoneType"
  | .number _ => "Number"
  | .bool _ => "Boolean"
  | .str _ => "String"
  | .symbol _ => "Symbol"
  | .list _ => "List"
  | .closure .. => "Closure"

end SmallScheme.Datum
