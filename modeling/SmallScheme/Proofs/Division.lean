import Mathlib.Algebra.BigOperators.Ring.List
import Mathlib.Data.List.Perm.Basic
import SmallScheme.Proofs.Arithmetic

/-!
# Exact division

Division goes through its divisors one by one. It stays with integers as long as each
step leaves no remainder, and never comes back to them once it has left them. All steps
are exact if and only if the dividend is a multiple of the product of the divisors, so
the order of the divisors does not matter for an integer quotient, although it may
matter for a real one.

* **`div_cases`** — what one step can do;
* **`foldlM_div_eq_int_iff`** — when all steps together yield an integer, and which one;
* **`foldlM_div_of_zero`**, **`foldlM_div_of_not_zero`** — a divisor that is zero is an
  error, and nothing else is but an overflow.

Main statement: `division_exact`.
-/

namespace SmallScheme

namespace Number

/-- Zero, as an integer or as a real of either sign. -/
def IsZero (d : Number) : Prop :=
  d = .int 0 ∨ ∃ x : Float, d = .real x ∧ (x == 0) = true

theorem isZero_iff (d : Number) : d.isZero = true ↔ d.IsZero := by
  cases d with
  | int k => simp [isZero, IsZero]
  | real x => simp [isZero, IsZero]

theorem isZero_eq_false {d : Number} (hd : ¬ d.IsZero) : ¬ d.isZero = true := by
  rw [isZero_iff]
  exact hd

/-! ## One step -/

theorem div_of_isZero (a : Number) {d : Number} (hd : d.IsZero) :
    a.div d = .error .divisionByZero := by
  unfold div
  rw [if_pos ((isZero_iff d).mpr hd)]

theorem div_int {k j : Int} (hj : ¬ (Number.int j).IsZero) (hdvd : j ∣ k) :
    div (.int k) (.int j) = .ok (.int (k / j)) := by
  unfold div
  rw [if_neg (isZero_eq_false hj)]
  exact if_pos (Int.emod_eq_zero_of_dvd hdvd)

/-- Unless both are integers and nothing remains, a quotient is inexact. -/
theorem inexact_div {a d : Number} (hd : ¬ d.IsZero)
    (hremains : ∀ k j : Int, a = .int k → d = .int j → ¬ j ∣ k) : Inexact (a.div d) := by
  unfold div
  rw [if_neg (isZero_eq_false hd)]
  split
  · rename_i k j
    have hmod : ¬ k % j = 0 := fun h => hremains k j rfl rfl (Int.dvd_of_emod_eq_zero h)
    rw [if_neg hmod]
    cases Binary64.ofIntQuotient? k j with
    | some x => exact .inl ⟨x, rfl⟩
    | none => exact .inr ⟨.quotient, rfl⟩
  · exact inexact_onReals (· / ·) a d

/-- A division by zero, an exact division of integers, or a division that leaves the integers
or overflows. -/
theorem div_cases (a d : Number) :
    (d.IsZero ∧ a.div d = .error .divisionByZero) ∨
    (¬ d.IsZero ∧ ∃ k j : Int, a = .int k ∧ d = .int j ∧ j ∣ k ∧ a.div d = .ok (.int (k / j))) ∨
    (¬ d.IsZero ∧ (∀ k j : Int, a = .int k → d = .int j → ¬ j ∣ k) ∧ Inexact (a.div d)) := by
  by_cases hd : d.IsZero
  · exact .inl ⟨hd, div_of_isZero a hd⟩
  · by_cases hexact : ∃ k j : Int, a = .int k ∧ d = .int j ∧ j ∣ k
    · obtain ⟨k, j, rfl, rfl, hdvd⟩ := hexact
      exact .inr (.inl ⟨hd, k, j, rfl, rfl, hdvd, div_int hd hdvd⟩)
    · have hremains (k j : Int) (ha : a = .int k) (hj : d = .int j) : ¬ j ∣ k :=
        fun hdvd => hexact ⟨k, j, ha, hj, hdvd⟩
      exact .inr (.inr ⟨hd, hremains, inexact_div hd hremains⟩)

/-! ## All steps -/

/-- A multiple of the product of divisors other than zero. -/
theorem foldlM_div_int (q : Int) {ks : List Int} (hks : 0 ∉ ks) :
    (ks.map Number.int).foldlM div (.int (q * ks.prod)) = .ok (.int q) := by
  induction ks with
  | nil =>
    rw [List.prod_nil, mul_one]
    rfl
  | cons j ks ih =>
    rw [List.mem_cons, not_or] at hks
    have hj : j ≠ 0 := Ne.symm hks.1
    have hzero : ¬ (Number.int j).IsZero := by simpa [IsZero] using hj
    have hproduct : q * (j :: ks).prod = j * (q * ks.prod) := by
      rw [List.prod_cons, mul_left_comm]
    have hdiv : div (.int (q * (j :: ks).prod)) (.int j) = .ok (.int (q * ks.prod)) := by
      rw [hproduct, div_int hzero (Int.dvd_mul_right j _), Int.mul_ediv_cancel_left _ hj]
    rw [List.map_cons, List.foldlM_cons, hdiv]
    exact ih hks.2

/-- An integer quotient comes from integers alone, and the product of the divisors times the
quotient is the dividend. -/
theorem ints_of_foldlM_div {a : Number} {ds : List Number} {q : Int}
    (h : ds.foldlM div a = .ok (.int q)) :
    ∃ (k : Int) (ks : List Int),
      a = .int k ∧ ds = ks.map .int ∧ 0 ∉ ks ∧ k = q * ks.prod := by
  induction ds generalizing a with
  | nil =>
    cases h
    exact ⟨q, [], rfl, rfl, List.not_mem_nil, by simp⟩
  | cons d ds ih =>
    rw [List.foldlM_cons] at h
    rcases div_cases a d with ⟨hd, hdiv⟩ | ⟨hd, k, j, rfl, rfl, hdvd, hdiv⟩ |
      ⟨hd, -, ⟨x, hdiv⟩ | ⟨cause, hdiv⟩⟩ <;> rw [hdiv] at h
    · cases h
    · obtain ⟨k', ks, hk', rfl, hks, hprod⟩ := ih h
      have hj : 0 ≠ j := by
        rintro rfl
        exact hd (.inl rfl)
      have hk : k / j = q * ks.prod := (Number.int.inj hk').trans hprod
      refine ⟨k, j :: ks, rfl, rfl, ?_, ?_⟩
      · rw [List.mem_cons, not_or]
        exact ⟨hj, hks⟩
      · rw [List.prod_cons, mul_left_comm, ← hk, Int.mul_ediv_cancel' hdvd]
    · -- from a real, the rest of the division cannot yield an integer
      obtain ⟨k', ks, hk', -⟩ := ih h
      cases hk'
    · cases h

/-- The quotient is an integer if and only if all numbers are integers, no divisor is zero, and
the product of the divisors divides the dividend. -/
theorem foldlM_div_eq_int_iff (a : Number) (ds : List Number) (q : Int) :
    ds.foldlM div a = .ok (.int q) ↔
      ∃ (k : Int) (ks : List Int),
        a = .int k ∧ ds = ks.map .int ∧ 0 ∉ ks ∧ ks.prod ∣ k ∧ q = k / ks.prod := by
  constructor
  · intro h
    obtain ⟨k, ks, rfl, rfl, hks, rfl⟩ := ints_of_foldlM_div h
    have hprod : ks.prod ≠ 0 := List.prod_ne_zero hks
    exact ⟨_, ks, rfl, rfl, hks, Int.dvd_mul_left q _, (Int.mul_ediv_cancel q hprod).symm⟩
  · rintro ⟨k, ks, rfl, rfl, hks, hdvd, rfl⟩
    have h := foldlM_div_int (k / ks.prod) hks
    rwa [Int.ediv_mul_cancel hdvd] at h

/-- A divisor that is zero is an error, unless an overflow comes first. -/
theorem foldlM_div_of_zero {ds : List Number} (hds : ∃ d ∈ ds, d.IsZero) (a : Number) :
    ds.foldlM div a = .error .divisionByZero ∨
      ∃ cause, ds.foldlM div a = .error (.overflow cause) := by
  induction ds generalizing a with
  | nil =>
    obtain ⟨d, hd, -⟩ := hds
    exact absurd hd List.not_mem_nil
  | cons d ds ih =>
    rw [List.foldlM_cons]
    have hrest (hd : ¬ d.IsZero) : ∃ d' ∈ ds, d'.IsZero := by
      obtain ⟨d', hd', hzero⟩ := hds
      rcases List.mem_cons.mp hd' with rfl | hd'
      · exact absurd hzero hd
      · exact ⟨d', hd', hzero⟩
    rcases div_cases a d with ⟨hd, hdiv⟩ | ⟨hd, k, j, -, -, -, hdiv⟩ |
      ⟨hd, -, ⟨x, hdiv⟩ | ⟨cause, hdiv⟩⟩ <;> rw [hdiv]
    · exact .inl rfl
    · exact ih (hrest hd) _
    · exact ih (hrest hd) _
    · exact .inr ⟨cause, rfl⟩

/-- Without a zero among the divisors, there is a quotient or an overflow. -/
theorem foldlM_div_of_not_zero {ds : List Number} (hds : ∀ d ∈ ds, ¬ d.IsZero) (a : Number) :
    (∃ n, ds.foldlM div a = .ok n) ∨ ∃ cause, ds.foldlM div a = .error (.overflow cause) := by
  induction ds generalizing a with
  | nil => exact .inl ⟨a, rfl⟩
  | cons d ds ih =>
    obtain ⟨hfirst, hrest⟩ := List.forall_mem_cons.mp hds
    rw [List.foldlM_cons]
    rcases div_cases a d with ⟨hd, -⟩ | ⟨-, k, j, -, -, -, hdiv⟩ |
      ⟨-, -, ⟨x, hdiv⟩ | ⟨cause, hdiv⟩⟩
    · exact absurd hd hfirst
    · rw [hdiv]
      exact ih hrest _
    · rw [hdiv]
      exact ih hrest _
    · rw [hdiv]
      exact .inr ⟨cause, rfl⟩

end Number

namespace Eval

/-! ## Dividends and divisors -/

/-- What is divided: a single operand divides one. -/
def dividend (first : Number) (rest : List Number) : Number :=
  if rest = [] then .int 1 else first

/-- What it is divided by, in order. -/
def divisors (first : Number) (rest : List Number) : List Number :=
  if rest = [] then [first] else rest

theorem quotient_eq (first : Number) (rest : List Number) :
    quotient first rest = (divisors first rest).foldlM Number.div (dividend first rest) := by
  cases rest with
  | nil => exact (bind_pure _).symm
  | cons d ds => rfl

/-- The divisors in another order have the same dividend. -/
theorem dividend_eq_of_perm (first : Number) {rest rest₂ : List Number} (h : rest₂.Perm rest) :
    dividend first rest₂ = dividend first rest ∧
      (divisors first rest₂).Perm (divisors first rest) := by
  unfold dividend divisors
  by_cases hrest : rest = []
  · subst hrest
    rw [h.eq_nil]
    exact ⟨rfl, .refl _⟩
  · have hrest₂ : rest₂ ≠ [] := by
      rintro rfl
      exact hrest h.symm.eq_nil
    rw [if_neg hrest, if_neg hrest, if_neg hrest₂, if_neg hrest₂]
    exact ⟨rfl, h⟩

/-- An integer quotient does not depend on the order of the divisors. -/
theorem quotient_int_of_perm {first : Number} {rest rest₂ : List Number} (h : rest₂.Perm rest)
    {q : Int} (hq : quotient first rest = .ok (.int q)) : quotient first rest₂ = .ok (.int q) := by
  obtain ⟨hdividend, hdivisors⟩ := dividend_eq_of_perm first h
  rw [quotient_eq, Number.foldlM_div_eq_int_iff] at hq ⊢
  obtain ⟨k, ks, hk, hks, hzero, hdvd, rfl⟩ := hq
  rw [hks] at hdivisors
  have hcomp : Relation.Comp (· = List.map Number.int ·) List.Perm (divisors first rest₂) ks := by
    rw [List.eq_map_comp_perm]
    exact hdivisors
  obtain ⟨ks₂, hks₂, hperm⟩ := hcomp
  refine ⟨k, ks₂, hdividend.trans hk, hks₂, ?_, ?_, ?_⟩
  · rwa [hperm.mem_iff]
  · rwa [hperm.prod_eq]
  · rw [hperm.prod_eq]

/-! ## Forms -/

theorem InTurn.divide {fuel : Nat} {env : FrameId} {operands : List Datum} {first : Number}
    {rest : List Number} {m m' : Machine}
    (h : InTurn (eval fuel) env operands m ((first :: rest).map .number) m') :
    (eval (fuel + 1) (.list (.operator .divide :: operands)) env).exec m =
      (arithmetic .divide (quotient first rest)).exec m' :=
  h.operate_numbers (show Operator.divide ∉ _ by decide)

theorem arithmetic_eq_int_iff {op : Operator} {r : Except ArithmeticFault Number} {m : Machine}
    {q : Int} : ((arithmetic op r).exec m).1 = .ok (.int q) ↔ r = .ok (.int q) := by
  constructor
  · intro h
    rcases r with (- | cause) | n
    · cases h
    · cases h
    · cases h
      rfl
  · rintro rfl
    rfl

end Eval

open Eval in
/-- **Division is exact where it can be.** If the operands are numbers, one at least, and a
single one divides one:

* the quotient is an integer if and only if all numbers are integers, no divisor is zero, and
  the product of the divisors divides the dividend; it is then the quotient by that product;
* so divisors in another order have the same integer quotient;
* a zero among the divisors, an integer or a real, is always a runtime error;
* without one the quotient is an integer, a real or an overflow. -/
theorem division_exact {fuel : Nat} {env : FrameId} {operands : List Datum} {first : Number}
    {rest : List Number} {m m' : Machine}
    (h : InTurn (eval fuel) env operands m ((first :: rest).map .number) m') :
    let run := (eval (fuel + 1) (.list (.operator .divide :: operands)) env).exec m
    let a := dividend first rest
    let ds := divisors first rest
    run.2 = m' ∧
    (∀ q : Int, run.1 = .ok (.int q) ↔
      ∃ (k : Int) (ks : List Int),
        a = .int k ∧ ds = ks.map .int ∧ 0 ∉ ks ∧ ks.prod ∣ k ∧ q = k / ks.prod) ∧
    (∀ (env₂ : FrameId) (operands₂ : List Datum) (rest₂ : List Number) (m₂ m₂' : Machine),
      InTurn (eval fuel) env₂ operands₂ m₂ ((first :: rest₂).map .number) m₂' → rest₂.Perm rest →
      ∀ q : Int, run.1 = .ok (.int q) →
        ((eval (fuel + 1) (.list (.operator .divide :: operands₂)) env₂).exec m₂).1 =
          .ok (.int q)) ∧
    ((∃ d ∈ ds, d.IsZero) →
      Raises run.1 .runtime "division by zero" ∨ Overflows .divide run.1) ∧
    ((∀ d ∈ ds, ¬ d.IsZero) →
      (∃ q : Int, run.1 = .ok (.int q)) ∨ RealOrOverflow .divide run.1) := by
  intro run a ds
  have hrun : run = (arithmetic .divide (quotient first rest)).exec m' := h.divide
  refine ⟨?_, ?_, ?_, ?_, ?_⟩
  · rw [hrun]
    exact still_arithmetic _ _ m'
  · intro q
    rw [hrun, arithmetic_eq_int_iff, quotient_eq]
    exact Number.foldlM_div_eq_int_iff a ds q
  · intro env₂ operands₂ rest₂ m₂ m₂' h₂ hperm q hq
    rw [hrun, arithmetic_eq_int_iff] at hq
    rw [h₂.divide, arithmetic_eq_int_iff]
    exact quotient_int_of_perm hperm hq
  · intro hzero
    rw [hrun, quotient_eq]
    rcases Number.foldlM_div_of_zero hzero a with hfault | ⟨cause, hfault⟩
    · rw [hfault]
      exact .inl ⟨.divisionByZero, rfl, rfl, rfl⟩
    · rw [hfault]
      exact .inr (overflows_arithmetic _ cause m')
  · intro hzero
    rw [hrun, quotient_eq]
    rcases Number.foldlM_div_of_not_zero hzero a with ⟨k | x, hresult⟩ | ⟨cause, hfault⟩
    · rw [hresult]
      exact .inl ⟨k, rfl⟩
    · rw [hresult]
      exact .inr (.inl ⟨x, rfl⟩)
    · rw [hfault]
      exact .inr (.inr (overflows_arithmetic _ cause m'))

open Eval in
/-- Negative divisors in two orders, a zero after a division with a remainder, and a single
operand. -/
theorem division_exact_orders_and_zero :
    let m : Machine := {}
    let run (ns : List Number) :=
      (eval 2 (.list (.operator .divide :: ns.map .number)) 0).exec m
    (run [.int (-84), .int 2, .int (-3), .int 7]).1 = .ok (.int 2) ∧
      (run [.int (-84), .int 7, .int 2, .int (-3)]).1 = .ok (.int 2) ∧
      (Raises (run [.int 1, .int 2, .int 0]).1 .runtime "division by zero" ∨
        Overflows .divide (run [.int 1, .int 2, .int 0]).1) ∧
      (¬ ∃ q : Int, (run [.int 7]).1 = .ok (.int q)) ∧ RealOrOverflow .divide (run [.int 7]).1 := by
  intro m run
  have hvalues (ns : List Number) : InTurn (eval 1) 0 (ns.map .number) m (ns.map .number) m := by
    induction ns with
    | nil => exact .nil m
    | cons n ns ih => exact .cons rfl ih
  obtain ⟨-, hint, hperm, -⟩ := division_exact (hvalues [.int (-84), .int 2, .int (-3), .int 7])
  have hexact := (hint 2).mpr ⟨-84, [2, -3, 7], rfl, rfl, by decide, by decide, by decide⟩
  obtain ⟨-, -, -, hzero, -⟩ := division_exact (hvalues [.int 1, .int 2, .int 0])
  obtain ⟨-, hseventh, -, -, hresult⟩ := division_exact (hvalues [.int 7])
  have hinexact : ¬ ∃ q : Int, (run [.int 7]).1 = .ok (.int q) := by
    rintro ⟨q, hq⟩
    obtain ⟨k, ks, hk, hks, -, hdvd, -⟩ := (hseventh q).mp hq
    obtain rfl : 1 = k := Number.int.inj hk
    obtain rfl : [7] = ks := (List.map_injective_iff.mpr fun _ _ => Number.int.inj) hks
    exact absurd hdvd (by decide)
  have horder : List.Perm [Number.int 7, .int 2, .int (-3)] [.int 2, .int (-3), .int 7] :=
    (List.perm_append_singleton (Number.int 7) [.int 2, .int (-3)]).symm
  have hreordered := hperm 0 _ [.int 7, .int 2, .int (-3)] m m (hvalues _) horder 2 hexact
  refine ⟨hexact, hreordered, ?_, hinexact, ?_⟩
  · exact hzero ⟨.int 0, by simp [divisors], .inl rfl⟩
  · refine (hresult ?_).resolve_left hinexact
    simp [divisors, Number.IsZero]

end SmallScheme
