import SmallScheme.Token.Basic

/-!
# From tokens to expressions

Tokens are folded into nested lists. The builder keeps the items of the list in
progress and those of the lists around it, so a token list may end inside any
number of open lists.
-/

namespace SmallScheme

/-- The lists in progress. All items stand last first. -/
structure Builder where
  /-- The items of the innermost list. -/
  current : List Datum := []
  /-- The items of the lists around it, from the inside out. -/
  around : List (List Datum) := []

/-- The expressions of a text so far, and how many lists are still open. -/
structure Forest where
  /-- The completed outermost expressions. -/
  exprs : List Datum
  /-- The number of open lists. -/
  depth : Nat

namespace Builder

/-- Add an expression to the list in progress. -/
def add (b : Builder) (d : Datum) : Builder :=
  { b with current := d :: b.current }

/-- Start a list inside the one in progress. -/
def enter (b : Builder) : Builder :=
  { current := [], around := b.current :: b.around }

/-- End the list in progress. -/
def leave (b : Builder) : Except Error Builder :=
  match b.around with
  | [] => .error .unmatchedClose
  | outer :: around => .ok { current := .list b.current.reverse :: outer, around }

/-- Take one token. -/
def take (b : Builder) : Token → Except Error Builder
  | .opening => .ok b.enter
  | .closing => b.leave
  | .keyword k => .ok (b.add (.keyword k))
  | .operator o => .ok (b.add (.operator o))
  | .number n => .ok (b.add (.number n))
  | .bool v => .ok (b.add (.bool v))
  | .str text => .ok (b.add (.str text))
  | .identifier name => .ok (b.add (.symbol name))

/-- What has been built. -/
def forest (b : Builder) : Forest :=
  match b.around.getLast? with
  | some outermost => { exprs := outermost.reverse, depth := b.around.length }
  | none => { exprs := b.current.reverse, depth := 0 }

end Builder

/-- Fold tokens into expressions. -/
def build (tokens : List Token) : Except Error Forest := do
  return (← tokens.foldlM Builder.take {}).forest

/-- The expressions of a text and the number of lists still open at its end. -/
def buildText (text : String) : Except Fault Forest := do
  let tokens ← tokenize text
  (build tokens).mapError Fault.error

/-- The expressions of a complete text. -/
def parse (text : String) : Except Fault (List Datum) := do
  let forest ← buildText text
  if forest.depth > 0 then .error (.error (.unclosed forest.depth)) else .ok forest.exprs

end SmallScheme
