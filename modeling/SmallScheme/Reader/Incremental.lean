import SmallScheme.Reader.Tree

/-!
# Reading line by line

A reader holds the text of an expression that is still open. Each line is joined
to it and the whole is read again: while lists stay open the text is kept, once
all are closed it is forgotten and the expressions are handed over. An error
forgets the text as well; an oversized literal does not.
-/

namespace SmallScheme

/-- What became of a line: more is needed, or these items are complete. -/
inductive Progress (α : Type) where
  | incomplete
  | complete (items : List α)

/-- Text that waits for the rest of an expression. -/
structure Reader where
  buffer : String := ""
  /-- The number of lists that the buffer leaves open. -/
  depth : Nat := 0
deriving Repr, DecidableEq

/-- What reading a line yields. -/
structure Feed where
  outcome : Except Fault (Progress Datum)
  /-- The reader afterwards. -/
  reader : Reader
  /-- The tokens of the joined text, if it has tokens. -/
  tokens? : Option (List Token)

namespace Reader

/-- An unfinished expression is waiting. -/
def pending (r : Reader) : Bool :=
  r.depth > 0

/-- The reader that holds nothing. -/
def reset (_ : Reader) : Reader := {}

/-- The buffer with a line added, on a line of its own. -/
def join (buffer line : String) : String :=
  if buffer = "" ∨ buffer.toList.getLast? = some '\n' then buffer ++ line
  else buffer ++ "\n" ++ line

/-- The reader after a text that could not be read. -/
def afterFault (r : Reader) (text : String) : Fault → Reader
  | .error _ => {}
  | .oversized _ => { r with buffer := text }

/-- Read one more line. -/
def feed (r : Reader) (line : String) : Feed :=
  let text := join r.buffer line
  match tokenize text with
  | .error fault => { outcome := .error fault, reader := r.afterFault text fault, tokens? := none }
  | .ok tokens =>
    match build tokens with
    | .error e => { outcome := .error (.error e), reader := {}, tokens? := some tokens }
    | .ok forest =>
      if forest.depth > 0 then
        { outcome := .ok .incomplete
          reader := { buffer := text, depth := forest.depth }
          tokens? := some tokens }
      else
        { outcome := .ok (.complete forest.exprs), reader := {}, tokens? := some tokens }

end Reader

end SmallScheme
