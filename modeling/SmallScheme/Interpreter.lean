import SmallScheme.Eval.Basic
import SmallScheme.Reader.Incremental

/-!
# Interpreters

An interpreter reads and evaluates program text in one outermost frame. What a
text defines stays defined for the texts after it, also when a later expression
fails. Evaluation that nests too deep is an error like any other here.
-/

namespace SmallScheme

/-- The frame of top-level definitions. -/
def globalFrame : FrameId := 0

/-- How deep evaluation may nest unless a session says otherwise. -/
def defaultDepthLimit : Nat := 10000

/-- A reader, and a machine whose frame `0` holds the top-level definitions. -/
structure Interpreter where
  reader : Reader := {}
  machine : Machine := {}
  depthLimit : Nat := defaultDepthLimit

namespace Interpreter

/-- The number of lists that the text read so far leaves open. -/
def depth (i : Interpreter) : Nat :=
  i.reader.depth

/-- Record events. -/
def record (i : Interpreter) (events : List Event) : Interpreter :=
  { i with machine := { i.machine with trace := i.machine.trace ++ events.toArray } }

/-- The events so far, and the interpreter without them. -/
def takeTrace (i : Interpreter) : List Event × Interpreter :=
  (i.machine.trace.toList, { i with machine := { i.machine with trace := #[] } })

/-- Evaluate one expression. -/
def evaluate (i : Interpreter) (expr : Datum) : Except Fault Datum × Interpreter :=
  match (eval i.depthLimit expr globalFrame).run.run i.machine with
  | (.ok v, machine) => (.ok v, { i with machine })
  | (.error (.fault f), machine) => (.error f, { i with machine })
  | (.error .tooDeep, machine) =>
    (.error (.error .depthExceeded), { i with machine }.record [.depthExceeded expr])

/-- Evaluate expressions in order, up to the first that fails. -/
def evaluateAll (i : Interpreter) : List Datum → Except Fault (List Datum) × Interpreter
  | [] => (.ok [], i)
  | e :: es =>
    match i.evaluate e with
    | (.error f, i) => (.error f, i)
    | (.ok v, i) =>
      match evaluateAll i es with
      | (.error f, i) => (.error f, i)
      | (.ok vs, i) => (.ok (v :: vs), i)

/-- The events of reading a line. -/
def readingEvents (feed : Feed) : List Event :=
  (match feed.tokens? with
    | some tokens => [.tokenized tokens]
    | none => []) ++
  (match feed.outcome with
    | .ok (.complete exprs) => [.parsed exprs]
    | _ => [])

/-- Take one more line: nothing while lists stay open, otherwise the values of the
expressions that it completed. -/
def feed (i : Interpreter) (line : String) : Except Fault (Progress Datum) × Interpreter :=
  let read := i.reader.feed line
  let i := { i with reader := read.reader }.record (readingEvents read)
  match read.outcome with
  | .error f => (.error f, i)
  | .ok .incomplete => (.ok .incomplete, i)
  | .ok (.complete exprs) =>
    match i.evaluateAll exprs with
    | (.error f, i) => (.error f, i)
    | (.ok vs, i) => (.ok (.complete vs), i)

/-- Evaluate a complete text: the value of its last expression, `nil` if it has
none. -/
def evalText (i : Interpreter) (text : String) : Except Fault Datum × Interpreter :=
  match parse text with
  | .error f => (.error f, i)
  | .ok exprs =>
    match i.evaluateAll exprs with
    | (.error f, i) => (.error f, i)
    | (.ok vs, i) => (.ok (vs.getLast?.getD .nil), i)

/-- The top-level definitions as text. -/
def environmentText (i : Interpreter) : Except Oversized String :=
  i.machine.heap.chainText globalFrame

end Interpreter

end SmallScheme
