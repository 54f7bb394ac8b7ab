import SmallScheme.Datum.Text
import SmallScheme.Error

/-!
# Scopes

Frames of bindings, numbered in the order in which they were made and never
removed. A frame keeps its names in the order of their first binding and may have
an outer frame; the chain of outer frames is where a name is looked up. Writing
always goes to the frame itself.
-/

namespace SmallScheme

/-- Names with their values, in the order of first binding. -/
abbrev Bindings := List (String × Datum)

namespace Bindings

/-- Whether a name is bound. -/
def has (bs : Bindings) (x : String) : Bool :=
  bs.any (·.1 = x)

/-- The value of a name. -/
def get? (bs : Bindings) (x : String) : Option Datum :=
  (bs.find? (·.1 = x)).map (·.2)

/-- Bind a name: a bound one keeps its place, a new one comes last. -/
def put (x : String) (v : Datum) : Bindings → Bindings
  | [] => [(x, v)]
  | (y, w) :: bs => if y = x then (x, v) :: bs else (y, w) :: put x v bs

end Bindings

/-- Bindings, and the frame in which to go on looking. -/
structure Frame where
  bindings : Bindings := []
  outer : Option FrameId := none
deriving Inhabited

namespace Frame

/-- Bind a name in the frame. -/
def assign (f : Frame) (x : String) (v : Datum) : Frame :=
  { f with bindings := f.bindings.put x v }

/-- Introduce a name ahead of its value; a bound name is left alone. -/
def declare (f : Frame) (x : String) : Frame :=
  if f.bindings.has x then f else f.assign x .unassigned

end Frame

/-- All frames, by number. -/
structure Heap where
  frames : Array Frame := #[]
deriving Inhabited

namespace Heap

/-- One frame without an outer one. -/
def initial : Heap := { frames := #[{}] }

/-- The number of the next frame to be made. -/
def size (h : Heap) : Nat :=
  h.frames.size

/-- Add a frame. Its number is the size of the heap before. -/
def push (h : Heap) (f : Frame) : Heap :=
  { h with frames := h.frames.push f }

/-- The bindings of a frame. -/
def bindings (h : Heap) (i : FrameId) : Bindings :=
  (h.frames[i]?.map Frame.bindings).getD []

/-- The outer frame of a frame. -/
def outer? (h : Heap) (i : FrameId) : Option FrameId :=
  h.frames[i]?.bind Frame.outer

/-- Change one frame. -/
def update (h : Heap) (i : FrameId) (f : Frame → Frame) : Heap :=
  { h with frames := h.frames.modify i f }

/-! ## Looking up -/

/-- At most `fuel` frames, from `i` outwards. -/
def chainFrom (h : Heap) : Nat → FrameId → List FrameId
  | 0, _ => []
  | fuel + 1, i =>
    match h.frames[i]? with
    | none => []
    | some f =>
      i :: match f.outer with
        | none => []
        | some o => chainFrom h fuel o

/-- A frame and those around it, from the inside out. Outer frames are older, so
the number of the frame bounds the length of the chain. -/
def chain (h : Heap) (i : FrameId) : List FrameId :=
  h.chainFrom (i + 1) i

/-- The nearest frame in which a name is bound. -/
def find? (h : Heap) (i : FrameId) (x : String) : Option FrameId :=
  (h.chain i).find? (fun j => (h.bindings j).has x)

/-- The value of a name, seen from a frame. -/
def lookup (h : Heap) (i : FrameId) (x : String) : Except Error Datum :=
  match h.find? i x with
  | none => .error (.unbound x)
  | some j =>
    match (h.bindings j).get? x with
    | none => .error (.unbound x)
    | some .unassigned => .error (.usedBeforeDefined x)
    | some v => .ok v

/-! ## Any datum as a name

Only symbols are names: nothing else can be bound, and nothing else is found. Frames find a
name by its key. A list is no key, so that to look for one is a fault; anything else may be
looked for. -/

/-- The name that a datum is, or why it cannot be bound. -/
def bindableName (d : Datum) : Except Fault String :=
  match d.symbol? with
  | some x => .ok x
  | none =>
    match d.describe with
    | .ok text => .error (.error (.notBindable text))
    | .error o => .error (.oversized o)

/-- Bind a datum in a frame. -/
def assign (h : Heap) (i : FrameId) (name value : Datum) : Except Fault Heap := do
  let x ← bindableName name
  return h.update i (·.assign x value)

/-- Introduce a datum in a frame ahead of its value. -/
def declare (h : Heap) (i : FrameId) (name : Datum) : Except Fault Heap := do
  let x ← bindableName name
  return h.update i (·.declare x)

/-- Why looking for a datum has no answer. -/
inductive LookupFault where
  | fault (f : Fault)
  /-- A list in the place of a name. -/
  | listAsKey
deriving Repr, DecidableEq

/-- The name to look for, or none for a datum that is found nowhere. -/
def keyOf? : Datum → Except LookupFault (Option String)
  | .symbol x => .ok (some x)
  | .list _ => .error .listAsKey
  | _ => .ok none

/-- The nearest frame in which a datum is bound. -/
def findDatum? (h : Heap) (i : FrameId) (name : Datum) : Except LookupFault (Option FrameId) := do
  return (← keyOf? name).bind (h.find? i)

/-- The value of a datum, seen from a frame. -/
def lookupDatum (h : Heap) (i : FrameId) (name : Datum) : Except LookupFault Datum := do
  match ← keyOf? name with
  | some x => (h.lookup i x).mapError (.fault <| .error ·)
  | none =>
    match name.describe with
    | .ok text => .error (.fault (.error (.unbound text)))
    | .error o => .error (.fault (.oversized o))

/-! ## Texts -/

/-- The bindings of a frame: `\x7bx: 1, y: 2\x7d`. -/
def bindingsText (h : Heap) (i : FrameId) : Except Oversized String := do
  let entries ← (h.bindings i).mapM fun (x, v) => do return x ++ ": " ++ (← v.inspect)
  return "\x7b" ++ ", ".intercalate entries ++ "\x7d"

/-- The bindings of a frame, with a mark if there are more around it. -/
def frameText (h : Heap) (i : FrameId) : Except Oversized String := do
  let text ← h.bindingsText i
  return if (h.outer? i).isSome then text ++ " -> ..." else text

/-- The bindings of a frame and of those around it. -/
def chainText (h : Heap) (i : FrameId) : Except Oversized String := do
  let texts ← (h.chain i).mapM h.bindingsText
  return "<Environment chain: " ++ " -> ".intercalate texts ++ ">"

end Heap

end SmallScheme
