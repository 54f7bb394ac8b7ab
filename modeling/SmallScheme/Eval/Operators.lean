import SmallScheme.Eval.Machine

/-!
# Operator forms

Arithmetic and comparison evaluate all operands first, then check that each is a
number, then compute. The connectives `and` and `or` stop at the operand that
decides.
-/

namespace SmallScheme.Eval

/-! ## Arithmetic -/

/-- The numbers that values are; the first other value is an error. -/
def numbers (op : Operator) : List Datum → Eval (List Number)
  | [] => pure []
  | v :: vs =>
    match v.number? with
    | some n => do return n :: (← numbers op vs)
    | none => do fail (.numberExpected op (← text v.render))

/-- The sum, from the integer zero on. -/
def sum (ns : List Number) : Except ArithmeticFault Number :=
  ns.foldlM Number.add (.int 0)

/-- The product, from the integer one on. -/
def product (ns : List Number) : Except ArithmeticFault Number :=
  ns.foldlM Number.mul (.int 1)

/-- The first number less all others; a single one is negated. -/
def difference (first : Number) : List Number → Except ArithmeticFault Number
  | [] => .ok first.neg
  | rest => rest.foldlM Number.sub first

/-- The first number divided by all others in turn; a single one divides one. -/
def quotient (first : Number) : List Number → Except ArithmeticFault Number
  | [] => (Number.int 1).div first
  | rest => rest.foldlM Number.div first

/-- The result of arithmetic as a value. -/
def arithmetic (op : Operator) : Except ArithmeticFault Number → Eval Datum
  | .ok n => pure (.number n)
  | .error .divisionByZero => fail .divisionByZero
  | .error (.overflow cause) => fail (.overflow op cause)

/-! ## Comparison -/

/-- Whether a comparison operator holds of two numbers. Nothing holds of NaN. -/
def holds (op : Operator) (a b : Number) : Bool :=
  match op, a.compare? b with
  | .equal, some .eq => true
  | .less, some .lt => true
  | .atMost, some .lt => true
  | .atMost, some .eq => true
  | .greater, some .gt => true
  | .atLeast, some .gt => true
  | .atLeast, some .eq => true
  | _, _ => false

/-- Whether a comparison operator holds of each number and the next. -/
def chained (op : Operator) : List Number → Bool
  | a :: b :: rest => holds op a b && chained op (b :: rest)
  | _ => true

/-! ## Connectives -/

/-- The boolean that a value is. -/
def boolean (op : Operator) (v : Datum) : Eval Bool :=
  match v.bool? with
  | some b => pure b
  | none => do fail (.booleanExpected op (← text v.render))

/-- Evaluate operands up to the first whose boolean is `stop`. Returns whether
there was one. -/
def reaches (op : Operator) (stop : Bool) (ev : Evaluator) (env : FrameId) :
    List Datum → Eval Bool
  | [] => pure false
  | e :: es => do
    let b ← boolean op (← ev e env)
    if b == stop then pure true else reaches op stop ev env es

/-! ## All operators -/

/-- Evaluate an operator form. -/
def operate (ev : Evaluator) (op : Operator) (operands : List Datum) (env : FrameId) :
    Eval Datum :=
  match op with
  | .plus => do arithmetic op (sum (← numbers op (← each ev env operands)))
  | .times => do arithmetic op (product (← numbers op (← each ev env operands)))
  | .minus => do
    match ← numbers op (← each ev env operands) with
    | [] => fail (.operatorArity op)
    | first :: rest => arithmetic op (difference first rest)
  | .divide => do
    match ← numbers op (← each ev env operands) with
    | [] => fail (.operatorArity op)
    | first :: rest => arithmetic op (quotient first rest)
  | .equal | .less | .atMost | .greater | .atLeast => do
    return .bool (chained op (← numbers op (← each ev env operands)))
  | .and => do return .bool (!(← reaches op false ev env operands))
  | .or => do return .bool (← reaches op true ev env operands)
  | .not =>
    match operands with
    | [e] => do return .bool (!(← boolean op (← ev e env)))
    | _ => fail (.operatorArity op)

end SmallScheme.Eval
