/-!
# Markers

The values that stand for something that is not there: no result, no value yet,
no complete expression yet. Each has one text and is equal to itself alone.
-/

namespace SmallScheme

/-- Something that is not there. -/
inductive Marker where
  /-- The result of a form that is evaluated for its effect. -/
  | nil
  /-- The value of a name that has been introduced and not yet bound. -/
  | unassigned
  /-- The result of a line that leaves a list open. -/
  | incomplete
deriving Repr, DecidableEq, Hashable

namespace Marker

/-- The text of a marker. -/
def text : Marker → String
  | .nil => "nil"
  | .unassigned => "#<unassigned>"
  | .incomplete => "Incomplete"

/-- Whether a marker stands for an empty result. A name that waits for its value is
not empty. -/
def isVoid : Marker → Bool
  | .nil | .incomplete => true
  | .unassigned => false

end Marker

end SmallScheme
