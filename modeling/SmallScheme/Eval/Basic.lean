import SmallScheme.Eval.Forms
import SmallScheme.Eval.Operators

/-!
# Evaluation

Literals and procedures stand for themselves, a symbol for its value, and a list
for a special form, an operator form or a call, by its head. The fuel bounds how
deep evaluation may nest; running out of it is an outcome of its own, so results
that were reached do not depend on it.
-/

namespace SmallScheme

/-- Evaluate an expression in a frame, nesting at most `fuel` deep. -/
def eval : (fuel : Nat) → Evaluator
  | 0, _, _ => throw .tooDeep
  | fuel + 1, expr, env =>
    match expr with
    | .number _ | .bool _ | .str _ | .closure .. => pure expr
    | .symbol x => Eval.lookup env x
    | .list [] => pure (.list [])
    | .list (.keyword form :: parts) => Eval.special (eval fuel) form parts env
    | .list (.operator op :: operands) => Eval.operate (eval fuel) op operands env
    | .list (head :: operands) => do
      match ← eval fuel head env with
      | .closure formals body frame =>
        let args ← Eval.each (eval fuel) env operands
        Eval.apply (eval fuel) formals body frame args
      | v => Eval.fail (.notApplicable (← Eval.text v.render))
    | .keyword _ | .operator _ | .nil | .unassigned | .absent => do
      Eval.fail (.notExpression expr.kindName (← Eval.text expr.inspect))

end SmallScheme
