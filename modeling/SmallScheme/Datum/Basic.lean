import SmallScheme.Number.Basic
import SmallScheme.ReservedWord

/-!
# Data

One type for what is read and for what evaluation yields, since quoting turns the
first into the second. A closure names the frame it was made in by its number.
-/

namespace SmallScheme

/-- The number of a frame of bindings. -/
abbrev FrameId := Nat

/-- An expression or a value. -/
inductive Datum where
  | number (n : Number)
  | bool (b : Bool)
  | str (text : String)
  | symbol (name : String)
  | keyword (k : Keyword)
  | operator (o : Operator)
  | list (items : List Datum)
  /-- A procedure: its parameters, its body and the frame it was made in. -/
  | closure (formals : List Datum) (body : Datum) (frame : FrameId)
  /-- The value of a form that is evaluated for its effect. -/
  | nil
  /-- What a name stands for between its introduction and its first value. -/
  | unassigned
  /-- No value at all; no text is read as this. -/
  | absent
deriving Inhabited

namespace Datum

/-- An integer. -/
abbrev int (n : Int) : Datum := .number (.int n)

/-- A real. -/
abbrev real (x : Float) : Datum := .number (.real x)

/-- The number that a datum is. Booleans are not numbers. -/
def number? : Datum → Option Number
  | .number n => some n
  | _ => none

/-- The boolean that a datum is. -/
def bool? : Datum → Option Bool
  | .bool b => some b
  | _ => none

/-- The items of a list. -/
def items? : Datum → Option (List Datum)
  | .list items => some items
  | _ => none

/-- The name of a symbol. -/
def symbol? : Datum → Option String
  | .symbol name => some name
  | _ => none

/-- Every datum but `#f` counts as true in a condition. -/
def isTruthy : Datum → Bool
  | .bool b => b
  | _ => true

/-- Whether a datum is `nil`. -/
def isNil : Datum → Bool
  | .nil => true
  | _ => false

end Datum

end SmallScheme
