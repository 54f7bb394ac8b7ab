import SmallScheme.Eval.Machine

/-!
# Special forms

Each form checks its parts before it evaluates any of them. The binding forms
make one frame: `let` evaluates its values outside of it, `let*` inside as it
grows, `letrec` inside once all names have been introduced.
-/

namespace SmallScheme.Eval

/-! ## Definitions -/

/-- `define` and `set!`: introduce the name, evaluate, bind. Both write to the frame
itself, never to an outer one. -/
def bindName (ev : Evaluator) (form : Keyword) (parts : List Datum) (env : FrameId) :
    Eval Datum :=
  match parts with
  | [name, expr] =>
    match name.symbol? with
    | some x => do
      declare env x
      let v ← ev expr env
      assign env x v
      return .nil
    | none => do fail (.nameExpected form (← text name.describe))
  | _ => fail (.formArity form)

/-! ## Procedures -/

/-- The names of parameters; the first that is no symbol is an error. -/
def parameters : List Datum → Eval (List String)
  | [] => pure []
  | p :: ps =>
    match p.symbol? with
    | some x => do return x :: (← parameters ps)
    | none => do fail (.parameterExpected (← text p.describe))

/-- `lambda`: a procedure of this frame. -/
def makeClosure (parts : List Datum) (env : FrameId) : Eval Datum :=
  match parts with
  | [formals, body] =>
    match formals.items? with
    | some ps => do
      let names ← parameters ps
      if names.Nodup then
        let closure := Datum.closure ps body env
        record (.closureMade closure)
        return closure
      else fail .repeatedParameter
    | none => do fail (.parameterListExpected (← text formals.describe))
  | _ => fail (.formArity .lambda)

/-- Bind arguments to parameters, in order. -/
def bindArguments (env : FrameId) : List Datum → List Datum → Eval Unit
  | p :: ps, v :: vs =>
    match p.symbol? with
    | some x => do
      assign env x v
      bindArguments env ps vs
    | none => do fail (.notBindable (← text p.describe))
  | _, _ => pure ()

/-- Call a procedure: bind the arguments in a new frame inside the one where the
procedure was made, and evaluate the body there. -/
def apply (ev : Evaluator) (formals : List Datum) (body : Datum) (frame : FrameId)
    (args : List Datum) : Eval Datum := do
  let closure := Datum.closure formals body frame
  if args.length = formals.length then
    let env ← child frame
    bindArguments env formals args
    record (.applied closure args)
    ev body env
  else fail (.callArity (← text closure.describe) formals.length args.length)

/-! ## Conditions -/

/-- `if`: only `#f` is false, and a missing else-part yields `nil`. -/
def branch (ev : Evaluator) (parts : List Datum) (env : FrameId) : Eval Datum :=
  match parts with
  | [test, yes] => do
    if (← ev test env).isTruthy then ev yes env else return .nil
  | [test, yes, no] => do
    if (← ev test env).isTruthy then ev yes env else ev no env
  | _ => fail (.formArity .ifThen)

/-! ## Local bindings -/

/-- One `(name expr)` pair. -/
def pair? : Datum → Option (String × Datum)
  | .list [.symbol x, e] => some (x, e)
  | _ => none

/-- The pairs of a binding list; the first that is none is an error. -/
def pairs (form : Keyword) : List Datum → Eval (List (String × Datum))
  | [] => pure []
  | d :: ds =>
    match pair? d with
    | some p => do return p :: (← pairs form ds)
    | none => do fail (.bindingExpected form (← text d.describe))

/-- The pairs and the body of a binding form. -/
def splitLet (form : Keyword) (parts : List Datum) : Eval (List (String × Datum) × Datum) :=
  match parts with
  | [bindings, body] =>
    match bindings.items? with
    | some ds => do return (← pairs form ds, body)
    | none => do fail (.bindingListExpected form (← text bindings.describe))
  | _ => fail (.formArity form)

/-- Introduce the names of pairs in a frame. -/
def declareAll (env : FrameId) : List (String × Datum) → Eval Unit
  | [] => pure ()
  | (x, _) :: ps => do
    declare env x
    declareAll env ps

/-- Evaluate each expression in the frame `env` and bind its name in the frame `inner`,
in order. -/
def bindPairs (ev : Evaluator) (env inner : FrameId) : List (String × Datum) → Eval Unit
  | [] => pure ()
  | (x, e) :: ps => do
    let v ← ev e env
    assign inner x v
    bindPairs ev env inner ps

/-- `let`: each value is that of the surrounding frame, which does not see the names. -/
def bindTogether (ev : Evaluator) (parts : List Datum) (env : FrameId) : Eval Datum := do
  let (ps, body) ← splitLet .letPlain parts
  let inner ← child env
  bindPairs ev env inner ps
  ev body inner

/-- `let*`: each value sees the names before it. -/
def bindInTurn (ev : Evaluator) (parts : List Datum) (env : FrameId) : Eval Datum := do
  let (ps, body) ← splitLet .letSeq parts
  let inner ← child env
  bindPairs ev inner inner ps
  ev body inner

/-- `letrec`: each value sees all names, which have been introduced before. -/
def bindRecursively (ev : Evaluator) (parts : List Datum) (env : FrameId) : Eval Datum := do
  let (ps, body) ← splitLet .letRec parts
  let inner ← child env
  declareAll inner ps
  bindPairs ev inner inner ps
  ev body inner

/-! ## Lists -/

/-- The first item and the rest of a list. -/
def uncons (form : Keyword) (v : Datum) : Eval (Datum × List Datum) :=
  match v.items? with
  | some (first :: rest) => pure (first, rest)
  | some [] => fail (.emptyList form)
  | none => do fail (.listExpected form (← text v.render))

/-- `cons`: evaluate an item and a list, in this order, and put them together. -/
def prepend (ev : Evaluator) (parts : List Datum) (env : FrameId) : Eval Datum :=
  match parts with
  | [item, tail] => do
    let v ← ev item env
    let w ← ev tail env
    match w.items? with
    | some vs => return .list (v :: vs)
    | none => fail (.listExpected .cons (← text w.render))
  | _ => fail (.formArity .cons)

/-! ## All special forms -/

/-- Evaluate a special form. -/
def special (ev : Evaluator) (form : Keyword) (parts : List Datum) (env : FrameId) :
    Eval Datum :=
  match form with
  | .quote =>
    match parts with
    | [d] => pure d
    | _ => fail (.formArity .quote)
  | .define | .assign => bindName ev form parts env
  | .lambda => makeClosure parts env
  | .ifThen => branch ev parts env
  | .letPlain => bindTogether ev parts env
  | .letSeq => bindInTurn ev parts env
  | .letRec => bindRecursively ev parts env
  | .car =>
    match parts with
    | [e] => do return (← uncons .car (← ev e env)).1
    | _ => fail (.formArity .car)
  | .cdr =>
    match parts with
    | [e] => do return .list (← uncons .cdr (← ev e env)).2
    | _ => fail (.formArity .cdr)
  | .cons => prepend ev parts env

end SmallScheme.Eval
