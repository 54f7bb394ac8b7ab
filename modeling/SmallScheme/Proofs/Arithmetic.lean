import Mathlib.Algebra.BigOperators.Group.List.Basic
import Mathlib.Algebra.Order.Ring.Int
import SmallScheme.Proofs.Operands

/-!
# Exact and inexact arithmetic

Integers stay exact under `+`, `-` and `*`, whatever their number and their size. One
real among the operands is enough to make the result a real, if there is a result: an
integer that meets a real may be too large to become one.

* **`foldlM_combine_int`** — operations on integers alone are folds of integers;
* **`foldlM_combine_of_mem`** — with a real among them, they are inexact.

Main statement: `arithmetic_exact`.
-/

namespace SmallScheme

namespace Number

/-! ## Integers alone -/

/-- From integers alone, each step yields an integer. -/
theorem foldlM_combine_int (onInts : Int → Int → Int) (onReals : Float → Float → Float) (a : Int)
    (ks : List Int) :
    (ks.map Number.int).foldlM (combine onInts onReals) (.int a) =
      .ok (.int (ks.foldl onInts a)) := by
  induction ks generalizing a with
  | nil => rfl
  | cons k ks ih => exact ih (onInts a k)

/-! ## Reals among the operands -/

/-- The result is a real, or there is none for an overflow. -/
def Inexact (r : Except ArithmeticFault Number) : Prop :=
  (∃ x, r = .ok (.real x)) ∨ ∃ cause, r = .error (.overflow cause)

theorem toReal_cases (n : Number) :
    (∃ x, n.toReal = .ok x) ∨ ∃ cause, n.toReal = .error (.overflow cause) := by
  cases n with
  | real x => exact .inl ⟨x, rfl⟩
  | int k =>
    rw [toReal]
    cases Binary64.ofInt? k with
    | some x => exact .inl ⟨x, rfl⟩
    | none => exact .inr ⟨.conversion, rfl⟩

/-- Two numbers made reals. -/
theorem inexact_onReals (onReals : Float → Float → Float) (a b : Number) :
    Inexact (do return .real (onReals (← a.toReal) (← b.toReal))) := by
  rcases a.toReal_cases with ⟨x, hx⟩ | ⟨cause, hx⟩
  · rcases b.toReal_cases with ⟨y, hy⟩ | ⟨cause, hy⟩
    · exact .inl ⟨onReals x y, by rw [hx, hy]; rfl⟩
    · exact .inr ⟨cause, by rw [hx, hy]; rfl⟩
  · exact .inr ⟨cause, by rw [hx]; rfl⟩

variable {onInts : Int → Int → Int} {onReals : Float → Float → Float}

theorem inexact_combine_real (a : Number) (y : Float) :
    Inexact (combine onInts onReals a (.real y)) := by
  cases a with
  | int k => exact inexact_onReals onReals (.int k) (.real y)
  | real x => exact inexact_onReals onReals (.real x) (.real y)

/-- Once inexact, a step that takes reals to inexact results goes on so to the end. -/
theorem Inexact.foldlM {step : Number → Number → Except ArithmeticFault Number}
    (hstep : ∀ x n, Inexact (step (.real x) n)) {r : Except ArithmeticFault Number}
    (hr : Inexact r) (ns : List Number) : Inexact (r >>= fun a => ns.foldlM step a) := by
  induction ns generalizing r with
  | nil =>
    rcases hr with ⟨x, rfl⟩ | ⟨cause, rfl⟩
    · exact .inl ⟨x, rfl⟩
    · exact .inr ⟨cause, rfl⟩
  | cons n ns ih =>
    rcases hr with ⟨x, rfl⟩ | ⟨cause, rfl⟩
    · exact ih (hstep x n)
    · exact .inr ⟨cause, rfl⟩

/-- A real among the operands makes the result inexact. -/
theorem foldlM_combine_of_mem {ns : List Number} {y : Float} (hy : .real y ∈ ns) (a : Number) :
    Inexact (ns.foldlM (combine onInts onReals) a) := by
  have hstep (x : Float) (n : Number) : Inexact (combine onInts onReals (.real x) n) :=
    inexact_onReals onReals (.real x) n
  induction ns generalizing a with
  | nil => exact absurd hy List.not_mem_nil
  | cons n ns ih =>
    rw [List.foldlM_cons]
    cases n with
    | real z => exact (inexact_combine_real a z).foldlM hstep ns
    | int k =>
      have hrest : .real y ∈ ns := by simpa using hy
      cases a with
      | int j => exact ih hrest (.int (onInts j k))
      | real x => exact (hstep x (.int k)).foldlM hstep ns

end Number

namespace Eval

/-! ## Sums, products and differences -/

theorem sum_int (ks : List Int) : sum (ks.map .int) = .ok (.int ks.sum) := by
  rw [List.sum_eq_foldl]
  exact Number.foldlM_combine_int _ _ 0 ks

theorem product_int (ks : List Int) : product (ks.map .int) = .ok (.int ks.prod) := by
  rw [List.prod_eq_foldl]
  exact Number.foldlM_combine_int _ _ 1 ks

theorem difference_int (k : Int) {ks : List Int} (hks : ks ≠ []) :
    difference (.int k) (ks.map .int) = .ok (.int (k - ks.sum)) := by
  have hfold (k : Int) (ks : List Int) : ks.foldl (· - ·) k = k - ks.sum := by
    induction ks generalizing k with
    | nil => simp
    | cons j ks ih => rw [List.foldl_cons, ih, List.sum_cons, sub_sub]
  obtain ⟨j, ks, rfl⟩ := List.exists_cons_of_ne_nil hks
  rw [← hfold]
  exact Number.foldlM_combine_int _ _ k (j :: ks)

theorem inexact_difference {first : Number} {rest : List Number} {y : Float}
    (hy : .real y ∈ first :: rest) : Number.Inexact (difference first rest) := by
  cases rest with
  | nil =>
    obtain rfl : Number.real y = first := by simpa using hy
    exact .inl ⟨-y, rfl⟩
  | cons n ns =>
    rcases List.mem_cons.mp hy with rfl | hy
    · have hfirst : Number.Inexact (.ok (.real y)) := .inl ⟨y, rfl⟩
      exact hfirst.foldlM (fun x n => Number.inexact_onReals _ (.real x) n) (n :: ns)
    · exact Number.foldlM_combine_of_mem hy first

/-- The report of an overflow. -/
def Overflows (op : Operator) (o : Except Halt Datum) : Prop :=
  ∃ cause : Overflow, Raises o .runtime ("numeric overflow in " ++ op.verb ++ ": " ++ cause.message)

theorem overflows_arithmetic (op : Operator) (cause : Overflow) (m : Machine) :
    Overflows op ((arithmetic op (.error (.overflow cause))).exec m).1 :=
  ⟨cause, .overflow op cause, rfl, rfl, rfl⟩

/-- A real, or the report of an overflow. -/
def RealOrOverflow (op : Operator) (o : Except Halt Datum) : Prop :=
  (∃ y, o = .ok (.real y)) ∨ Overflows op o

theorem realOrOverflow_of_inexact {r : Except ArithmeticFault Number} (hr : Number.Inexact r)
    (op : Operator) (m : Machine) : RealOrOverflow op ((arithmetic op r).exec m).1 := by
  rcases hr with ⟨y, rfl⟩ | ⟨cause, rfl⟩
  · exact .inl ⟨y, rfl⟩
  · exact .inr (overflows_arithmetic op cause m)

section Integers

variable {ev : Evaluator} {env : FrameId} {operands : List Datum} {ks : List Int} {m m' : Machine}
  (h : InTurn ev env operands m (ks.map .int) m')

include h

/-- An operator on operands whose values are integers. -/
theorem InTurn.operate_int {op : Operator} (hop : op ∉ [Operator.and, .or, .not]) :
    (operate ev op operands env).exec m = (compute op (ks.map .int)).exec m' := by
  have hvalues : ks.map Datum.int = (ks.map Number.int).map .number := by
    rw [List.map_map]
    rfl
  rw [hvalues] at h
  exact h.operate_numbers hop

theorem InTurn.plus_int : ((operate ev .plus operands env).exec m).1 = .ok (.int ks.sum) := by
  rw [h.operate_int (by decide), compute, sum_int]
  rfl

theorem InTurn.times_int : ((operate ev .times operands env).exec m).1 = .ok (.int ks.prod) := by
  rw [h.operate_int (by decide), compute, product_int]
  rfl

end Integers

end Eval

/-! ## Forms -/

open Eval in
/-- **`+`, `-` and `*` are exact on integers.** If the operands have values, all of them are
evaluated, from left to right, and their effects stay, whatever is made of the values:

* the first value that is not a number is named in a type error;
* a real among numbers makes the result a real, unless there is an overflow;
* integers alone have their exact sum, product or difference, and a single one is negated;
* the sum and the product of integers are those of any operands with the same values in
  another order. -/
theorem arithmetic_exact {fuel : Nat} {env : FrameId} {operands vs : List Datum} {m m' : Machine}
    (h : InTurn (eval fuel) env operands m vs m') :
    let run (op : Operator) := (eval (fuel + 1) (.list (.operator op :: operands)) env).exec m
    (∀ op ∈ [Operator.plus, .minus, .times],
      (run op).2 = m' ∧
      (∀ (ns : List Number) (v : Datum) (later : List Datum) (text : String),
        vs = ns.map .number ++ v :: later → (∀ n, v ≠ .number n) → v.render = .ok text →
        Raises (run op).1 .type (op.spelling ++ " operator applied to non-number " ++ text)) ∧
      ∀ (ns : List Number) (x : Float), vs = ns.map .number → .real x ∈ ns →
        RealOrOverflow op (run op).1) ∧
    ∀ ks : List Int, vs = ks.map .int →
      (run .plus).1 = .ok (.int ks.sum) ∧
      (run .times).1 = .ok (.int ks.prod) ∧
      (ks = [] → Raises (run .minus).1 .arity "- requires at least 1 argument") ∧
      (∀ k, ks = [k] → (run .minus).1 = .ok (.int (-k))) ∧
      (∀ k rest, ks = k :: rest → rest ≠ [] → (run .minus).1 = .ok (.int (k - rest.sum))) ∧
      ∀ (env₂ : FrameId) (operands₂ : List Datum) (m₂ : Machine) (ks₂ : List Int) (m₂' : Machine),
        InTurn (eval fuel) env₂ operands₂ m₂ (ks₂.map .int) m₂' → ks₂.Perm ks →
        ∀ op ∈ [Operator.plus, .times],
          ((eval (fuel + 1) (.list (.operator op :: operands₂)) env₂).exec m₂).1 = (run op).1 := by
  intro run
  have hconnective {op : Operator} (hop : op ∈ [Operator.plus, .minus, .times]) :
      op ∉ [Operator.and, .or, .not] := by
    revert op
    decide
  refine ⟨?_, ?_⟩
  · intro op hop
    refine ⟨h.machine_operate (hconnective hop), ?_, ?_⟩
    · rintro ns v later text rfl hv htext
      exact ⟨_, h.operate_other (hconnective hop) hv htext, rfl, rfl⟩
    · rintro ns x rfl hx
      have hrun : run op = (compute op ns).exec m' := h.operate_numbers (hconnective hop)
      rw [hrun]
      simp only [List.mem_cons, List.not_mem_nil, or_false] at hop
      rcases hop with rfl | rfl | rfl
      · exact realOrOverflow_of_inexact (Number.foldlM_combine_of_mem hx _) _ _
      · cases ns with
        | nil => exact absurd hx List.not_mem_nil
        | cons first rest => exact realOrOverflow_of_inexact (inexact_difference hx) _ _
      · exact realOrOverflow_of_inexact (Number.foldlM_combine_of_mem hx _) _ _
  · rintro ks rfl
    have hminus : run .minus = (compute .minus (ks.map .int)).exec m' :=
      h.operate_int (show Operator.minus ∉ _ by decide)
    have hplus : (run .plus).1 = .ok (.int ks.sum) := h.plus_int
    have htimes : (run .times).1 = .ok (.int ks.prod) := h.times_int
    refine ⟨hplus, htimes, ?_, ?_, ?_, ?_⟩
    · rintro rfl
      exact ⟨.operatorArity .minus, by rw [hminus]; rfl, rfl, rfl⟩
    · rintro k rfl
      rw [hminus]
      rfl
    · rintro k rest rfl hrest
      rw [hminus, List.map_cons, compute, difference_int k hrest]
      rfl
    · intro env₂ operands₂ m₂ ks₂ m₂' h₂ hperm op hop
      simp only [List.mem_cons, List.not_mem_nil, or_false] at hop
      rcases hop with rfl | rfl
      · rw [← hperm.sum_eq] at hplus
        exact h₂.plus_int.trans hplus.symm
      · rw [← hperm.prod_eq] at htimes
        exact h₂.times_int.trans htimes.symm

open Eval in
/-- An operand that changes what the next one stands for, and the same integers in another
order; a boolean that comes after a number; a real that comes after an integer. -/
theorem arithmetic_exact_changed_name :
    let m : Machine := { heap := { frames := #[{ bindings := [("x", .int 1)] }] } }
    let m' : Machine := { heap := { frames := #[{ bindings := [("x", .int 5)] }] } }
    let change : Datum := .list [.keyword .define, .symbol "x", .int 5]
    let operands : List Datum :=
      [.symbol "x", .list [.keyword .ifThen, change, .int 2], .symbol "x"]
    let run (op : Operator) (operands : List Datum) :=
      (eval 4 (.list (.operator op :: operands)) 0).exec m
    InTurn (eval 3) 0 operands m ([1, 2, 5].map .int) m' ∧
      run .plus operands = (.ok (.int 8), m') ∧ run .minus operands = (.ok (.int (-6)), m') ∧
      (run .times [.int 5, .int 1, .int 2]).1 = (run .times operands).1 ∧
      Raises (run .minus [.int 1, .bool true, .str "a"]).1 .type
        "- operator applied to non-number #t" ∧
      RealOrOverflow .times (run .times [.int 2, .real 0.5]).1 := by
  intro m m' change operands run
  have hints : InTurn (eval 3) 0 operands m ([1, 2, 5].map .int) m' :=
    .cons rfl (.cons rfl (.cons rfl (.nil _)))
  have hother : InTurn (eval 3) 0 [.int 1, .bool true, .str "a"] m
      ([Number.int 1].map Datum.number ++ [.bool true, .str "a"]) m :=
    .cons rfl (.cons rfl (.cons rfl (.nil _)))
  have hreal : InTurn (eval 3) 0 [.int 2, .real 0.5] m ([.int 2, .real 0.5].map .number) m :=
    .cons rfl (.cons rfl (.nil _))
  obtain ⟨hall, hexact⟩ := arithmetic_exact hints
  obtain ⟨hplus, -, -, -, hminus, hperm⟩ := hexact [1, 2, 5] rfl
  refine ⟨hints, Prod.ext hplus (hall .plus (by decide)).1, ?_, ?_, ?_, ?_⟩
  · exact Prod.ext (hminus 1 [2, 5] rfl (by decide)) (hall .minus (by decide)).1
  · exact hperm 0 [.int 5, .int 1, .int 2] m [5, 1, 2] m
      (.cons rfl (.cons rfl (.cons rfl (.nil _)))) (by decide) .times (by decide)
  · obtain ⟨hfaults, -⟩ := arithmetic_exact hother
    exact (hfaults .minus (by decide)).2.1 [.int 1] (.bool true) [.str "a"] "#t" rfl (by simp) rfl
  · obtain ⟨hreals, -⟩ := arithmetic_exact hreal
    exact (hreals .times (by decide)).2.2 [.int 2, .real 0.5] 0.5 rfl (by simp)

end SmallScheme
