import SmallScheme.Event
import SmallScheme.Scope

/-!
# The evaluation machine

Evaluation reads and writes a heap of frames, leaves a trace of events, and may
stop early: on a fault, or when it nests deeper than it may. What was written
before an early stop stays written.
-/

namespace SmallScheme

/-- What evaluation works on. -/
structure Machine where
  heap : Heap := .initial
  trace : Array Event := #[]
deriving Inhabited

/-- Why evaluation stopped without a value. -/
inductive Halt where
  | fault (f : Fault)
  /-- Evaluation nested deeper than allowed. -/
  | tooDeep
deriving Repr, DecidableEq

/-- A computation of the machine. -/
abbrev Eval := ExceptT Halt (StateM Machine)

/-- How expressions are evaluated in a frame. The forms take it as an argument. -/
abbrev Evaluator := Datum → FrameId → Eval Datum

namespace Eval

/-- Stop with an error. -/
def fail {α : Type} (e : Error) : Eval α :=
  throw (.fault (.error e))

/-- Go on with a result, or stop with the error in its place. -/
def ofError {α : Type} : Except Error α → Eval α
  | .ok a => pure a
  | .error e => fail e

/-- A text to put into a message. -/
def text : Except Oversized String → Eval String
  | .ok s => pure s
  | .error o => throw (.fault (.oversized o))

/-- Record an event. -/
def record (e : Event) : Eval Unit :=
  modify fun m => { m with trace := m.trace.push e }

/-- The value of a name, seen from a frame. -/
def lookup (env : FrameId) (x : String) : Eval Datum := do
  ofError ((← get).heap.lookup env x)

/-- Introduce a name in a frame. -/
def declare (env : FrameId) (x : String) : Eval Unit :=
  modify fun m => { m with heap := m.heap.update env (·.declare x) }

/-- Bind a name in a frame. -/
def assign (env : FrameId) (x : String) (v : Datum) : Eval Unit :=
  modify fun m => { m with heap := m.heap.update env (·.assign x v) }

/-- Make an empty frame inside another, and return its number. -/
def child (env : FrameId) : Eval FrameId :=
  modifyGet fun m => (m.heap.size, { m with heap := m.heap.push { outer := some env } })

/-- Evaluate expressions from left to right. -/
def each (ev : Evaluator) (env : FrameId) : List Datum → Eval (List Datum)
  | [] => pure []
  | e :: es => do
    let v ← ev e env
    let vs ← each ev env es
    return v :: vs

end Eval

end SmallScheme
