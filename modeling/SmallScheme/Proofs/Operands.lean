import SmallScheme.Proofs.Machine

/-!
# Operands

Arithmetic and comparison have one shape: all operands are evaluated, from left to
right; then each value is checked to be a number; then something is computed from the
numbers. Checking and computing leave the machine alone, so what a form leaves behind
is what its operands left behind, even if the form fails.

* **`InTurn`** — expressions evaluated one after the other, with their values and the
  machine at the end;
* **`exec_operate`** — an operator on numbers, once its operands have been evaluated.
-/

namespace SmallScheme.Eval

variable {ev : Evaluator} {env : FrameId} {α β : Type}

/-! ## Expressions in turn -/

/-- The expressions are evaluated in the frame from left to right, each from the machine that
the one before left, and all of them have values. -/
inductive InTurn (ev : Evaluator) (env : FrameId) :
    List Datum → Machine → List Datum → Machine → Prop
  | nil (m : Machine) : InTurn ev env [] m [] m
  | cons {e v : Datum} {es vs : List Datum} {m m₁ m' : Machine} :
      (ev e env).exec m = (.ok v, m₁) → InTurn ev env es m₁ vs m' →
      InTurn ev env (e :: es) m (v :: vs) m'

theorem InTurn.exec_each {es vs : List Datum} {m m' : Machine} (h : InTurn ev env es m vs m') :
    (each ev env es).exec m = (.ok vs, m') := by
  induction h with
  | nil m => rfl
  | cons hv _ ih =>
    rw [each, exec_bind, hv]
    dsimp only
    rw [exec_bind, ih]
    rfl

/-! ## Computations that leave the machine alone -/

/-- The machine is the same afterwards, however the computation ends. -/
def Still (c : Eval α) : Prop :=
  ∀ m : Machine, (c.exec m).2 = m

theorem still_pure (a : α) : Still (pure a) :=
  fun _ => rfl

theorem still_fail (e : Error) : Still (fail e : Eval α) :=
  fun _ => rfl

theorem Still.bind {c : Eval α} {f : α → Eval β} (hc : Still c) (hf : ∀ a, Still (f a)) :
    Still (c >>= f) := by
  intro m
  have hfirst := hc m
  rw [exec_bind]
  rcases hrun : c.exec m with ⟨halt | a, m'⟩ <;> rw [hrun] at hfirst
  · exact hfirst
  · exact (hf a m').trans hfirst

theorem still_failWith (e : String → Error) (t : Except Oversized String) :
    Still (do fail (e (← text t)) : Eval α) := by
  cases t with
  | ok s => exact still_fail (e s)
  | error o => exact fun _ => rfl

/-! ## Checking that values are numbers -/

theorem still_numbers (op : Operator) (vs : List Datum) : Still (numbers op vs) := by
  induction vs with
  | nil => exact still_pure _
  | cons v vs ih =>
    rw [numbers]
    split
    · exact ih.bind fun _ => still_pure _
    · exact still_failWith _ _

theorem exec_numbers (op : Operator) (ns : List Number) (m : Machine) :
    (numbers op (ns.map .number)).exec m = (.ok ns, m) := by
  induction ns with
  | nil => rfl
  | cons n ns ih =>
    show (numbers op (ns.map .number) >>= fun rest => pure (n :: rest)).exec m = _
    rw [exec_bind, ih]
    rfl

/-- The first value that is not a number is the one that the error quotes. -/
theorem exec_numbers_of_other (op : Operator) (ns : List Number) {v : Datum} {later : List Datum}
    (hv : ∀ n, v ≠ .number n) {text : String} (htext : v.render = .ok text) (m : Machine) :
    (numbers op (ns.map .number ++ v :: later)).exec m =
      (.error (.fault (.error (.numberExpected op text))), m) := by
  have hother : v.number? = none := by
    cases v with
    | number n => exact absurd rfl (hv n)
    | _ => rfl
  induction ns with
  | nil =>
    rw [List.map_nil, List.nil_append, numbers, hother, htext]
    rfl
  | cons n ns ih =>
    show (numbers op (ns.map .number ++ v :: later) >>= fun rest => pure (n :: rest)).exec m = _
    rw [exec_bind, ih]

/-! ## Operators on numbers -/

/-- What an operator on numbers makes of them. -/
def compute (op : Operator) (ns : List Number) : Eval Datum :=
  match op with
  | .plus => arithmetic op (sum ns)
  | .times => arithmetic op (product ns)
  | .minus =>
    match ns with
    | [] => fail (.operatorArity op)
    | first :: rest => arithmetic op (difference first rest)
  | .divide =>
    match ns with
    | [] => fail (.operatorArity op)
    | first :: rest => arithmetic op (quotient first rest)
  | _ => return .bool (chained op ns)

theorem still_arithmetic (op : Operator) (r : Except ArithmeticFault Number) :
    Still (arithmetic op r) := by
  unfold arithmetic
  split
  · exact still_pure _
  · exact still_fail _
  · exact still_fail _

theorem still_compute (op : Operator) (ns : List Number) : Still (compute op ns) := by
  cases op with
  | plus => exact still_arithmetic _ _
  | times => exact still_arithmetic _ _
  | minus | divide =>
    cases ns with
    | nil => exact still_fail _
    | cons first rest => exact still_arithmetic _ _
  | _ => exact still_pure _

/-- Operators other than the connectives evaluate their operands, check them, and compute. -/
theorem operate_eq {op : Operator} (hop : op ∉ [Operator.and, .or, .not]) (operands : List Datum) :
    operate ev op operands env =
      each ev env operands >>= fun vs => numbers op vs >>= compute op := by
  cases op with
  | and | or | not => simp at hop
  | _ => rfl

section Evaluated

variable {operands vs : List Datum} {m m' : Machine} {op : Operator}

/-- An operator on numbers, once its operands have been evaluated. -/
theorem InTurn.exec_operate (h : InTurn ev env operands m vs m')
    (hop : op ∉ [Operator.and, .or, .not]) :
    (operate ev op operands env).exec m = (numbers op vs >>= compute op).exec m' := by
  rw [operate_eq hop, exec_bind, h.exec_each]

/-- Whatever an operator on numbers makes of the values, the effects of its operands are all
that it leaves behind. -/
theorem InTurn.machine_operate (h : InTurn ev env operands m vs m')
    (hop : op ∉ [Operator.and, .or, .not]) : ((operate ev op operands env).exec m).2 = m' := by
  rw [h.exec_operate hop]
  exact (still_numbers op vs).bind (still_compute op) m'

theorem InTurn.operate_numbers {ns : List Number}
    (h : InTurn ev env operands m (ns.map .number) m') (hop : op ∉ [Operator.and, .or, .not]) :
    (operate ev op operands env).exec m = (compute op ns).exec m' := by
  rw [h.exec_operate hop, exec_bind, exec_numbers]

theorem InTurn.operate_other {ns : List Number} {v : Datum} {later : List Datum}
    (h : InTurn ev env operands m (ns.map .number ++ v :: later) m')
    (hop : op ∉ [Operator.and, .or, .not]) (hv : ∀ n, v ≠ .number n) {text : String}
    (htext : v.render = .ok text) :
    ((operate ev op operands env).exec m).1 =
      .error (.fault (.error (.numberExpected op text))) := by
  rw [h.exec_operate hop, exec_bind, exec_numbers_of_other op ns hv htext]

end Evaluated

/-! ## Outcomes in words -/

/-- Evaluation stopped with an error of this kind and wording. -/
def Raises (o : Except Halt Datum) (kind : ErrorKind) (message : String) : Prop :=
  ∃ e : Error, o = .error (.fault (.error e)) ∧ e.kind = kind ∧ e.message = message

end SmallScheme.Eval
