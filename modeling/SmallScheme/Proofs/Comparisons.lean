import Mathlib.Data.List.Chain
import SmallScheme.Proofs.Operands

/-!
# Comparisons

A comparison form compares each number with the next one only, and stops at the first
pair that fails. Its operands have all been evaluated and checked by then, so a value that
is not a number is an error even behind such a pair.

* **`chained_int_iff`** — on integers, comparing neighbours is comparing every number with
  every later one, since each of the relations is transitive;
* **`exists_first_other`** — values that are not all numbers have a first one that is not.

Main statement: `comparison_of_all_pairs`.
-/

namespace SmallScheme

namespace Operator

/-- The operators that compare numbers. -/
def comparisons : List Operator :=
  [.equal, .less, .atMost, .greater, .atLeast]

/-- What a comparison operator says of two integers. -/
def Relates : Operator → Int → Int → Prop
  | .equal, a, b => a = b
  | .less, a, b => a < b
  | .atMost, a, b => a ≤ b
  | .greater, a, b => b < a
  | .atLeast, a, b => b ≤ a
  | _, _, _ => False

theorem Relates.trans {op : Operator} {a b c : Int} (hab : op.Relates a b)
    (hbc : op.Relates b c) : op.Relates a c := by
  cases op with
  | equal | less | atMost | greater | atLeast =>
    simp only [Relates] at hab hbc ⊢
    omega
  | _ => exact hab.elim

instance (op : Operator) : Trans op.Relates op.Relates op.Relates :=
  ⟨Relates.trans⟩

end Operator

namespace Datum

theorem number?_eq_none_iff {v : Datum} : v.number? = none ↔ ∀ n, v ≠ .number n := by
  cases v <;> simp [number?]

/-- Values that are numbers, as numbers. -/
theorem exists_numbers {vs : List Datum} (h : ∀ v ∈ vs, v.number? ≠ none) :
    ∃ ns : List Number, vs = ns.map .number := by
  induction vs with
  | nil => exact ⟨[], rfl⟩
  | cons v vs ih =>
    obtain ⟨hv, hvs⟩ := List.forall_mem_cons.mp h
    obtain ⟨ns, rfl⟩ := ih hvs
    cases v with
    | number n => exact ⟨n :: ns, rfl⟩
    | _ => exact absurd rfl hv

/-- Values that are not all numbers: some numbers, then one that is none, then others. -/
theorem exists_first_other {vs : List Datum} {v : Datum}
    (h : vs.find? (·.number?.isNone) = some v) :
    v.number? = none ∧ ∃ (ns : List Number) (later : List Datum),
      vs = ns.map .number ++ v :: later := by
  obtain ⟨hv, earlier, later, rfl, hearlier⟩ := List.find?_eq_some_iff_append.mp h
  have hnumbers : ∀ w ∈ earlier, w.number? ≠ none := by
    intro w hw hnone
    simpa [hnone] using hearlier w hw
  obtain ⟨ns, rfl⟩ := exists_numbers hnumbers
  exact ⟨by simpa using hv, ns, later, rfl⟩

end Datum

namespace Eval

/-! ## Neighbours and pairs -/

theorem holds_int_iff (op : Operator) (a b : Int) :
    holds op (.int a) (.int b) = true ↔ op.Relates a b := by
  have hcompare : (Number.int a).compare? (.int b) = some (compare a b) := rfl
  cases hab : compare a b with
  | lt =>
    have hlt : a < b := Int.compare_eq_lt.mp hab
    cases op <;> simp [holds, hcompare, hab, Operator.Relates] <;> omega
  | eq =>
    have heq : a = b := Int.compare_eq_eq.mp hab
    cases op <;> simp [holds, hcompare, hab, Operator.Relates] <;> omega
  | gt =>
    have hgt : b < a := Int.compare_eq_gt.mp hab
    cases op <;> simp [holds, hcompare, hab, Operator.Relates] <;> omega

theorem chained_int_iff_isChain (op : Operator) (ks : List Int) :
    chained op (ks.map .int) = true ↔ ks.IsChain op.Relates := by
  induction ks with
  | nil => simp [chained]
  | cons a ks ih =>
    cases ks with
    | nil => simp [chained]
    | cons b ks =>
      rw [List.isChain_cons_cons, ← holds_int_iff, ← ih]
      simp [chained]

/-- Comparing neighbours is enough to compare every integer with every later one. -/
theorem chained_int_iff (op : Operator) (ks : List Int) :
    chained op (ks.map .int) = true ↔
      ∀ i j : Fin ks.length, i < j → op.Relates (ks.get i) (ks.get j) := by
  rw [chained_int_iff_isChain, List.isChain_iff_pairwise, List.pairwise_iff_get]

/-! ## Comparison forms -/

theorem compute_of_comparison {op : Operator} (hop : op ∈ Operator.comparisons)
    (ns : List Number) : compute op ns = return .bool (chained op ns) := by
  cases op with
  | plus | minus | times | divide | and | or | not => simp [Operator.comparisons] at hop
  | _ => rfl

/-- Comparison forms evaluate all of their operands and check their values. -/
theorem not_connective_of_comparison {op : Operator} (hop : op ∈ Operator.comparisons) :
    op ∉ [Operator.and, .or, .not] := by
  revert op
  decide

section Evaluated

variable {ev : Evaluator} {env : FrameId} {operands vs : List Datum} {m m' : Machine}
  {op : Operator}

theorem InTurn.compare_numbers {ns : List Number}
    (h : InTurn ev env operands m (ns.map .number) m') (hop : op ∈ Operator.comparisons) :
    ((operate ev op operands env).exec m).1 = .ok (.bool (chained op ns)) := by
  rw [h.operate_numbers (not_connective_of_comparison hop), compute_of_comparison hop]
  rfl

/-- The first value that is not a number is the one that the error quotes, whatever the
numbers before it are. -/
theorem InTurn.compare_other {v : Datum} (h : InTurn ev env operands m vs m')
    (hop : op ∈ Operator.comparisons) (hv : vs.find? (·.number?.isNone) = some v) {text : String}
    (htext : v.render = .ok text) :
    Raises ((operate ev op operands env).exec m).1 .type
      (op.spelling ++ " operator applied to non-number " ++ text) := by
  obtain ⟨hnone, ns, later, rfl⟩ := Datum.exists_first_other hv
  have hother := Datum.number?_eq_none_iff.mp hnone
  exact ⟨_, h.operate_other (not_connective_of_comparison hop) hother htext, rfl, rfl⟩

end Evaluated

end Eval

open Eval in
/-- **Comparing neighbours compares all pairs.** If the operands of a comparison have values,
and those that are not numbers can be written, then all operands are evaluated and their
effects stay, and

* the first value that is not a number is named in a type error, even if two numbers before
  it already fail the comparison; if all values are numbers, there is no such error;
* integers are compared, each of them with each one after it: the result says whether the
  operator holds of every such pair. -/
theorem comparison_of_all_pairs {fuel : Nat} {env : FrameId} {operands vs : List Datum}
    {m m' : Machine} {op : Operator} (hop : op ∈ Operator.comparisons)
    (h : InTurn (eval fuel) env operands m vs m')
    (hwritten : ∀ v ∈ vs, v.number? = none → ∃ text, v.render = .ok text) :
    let run := (eval (fuel + 1) (.list (.operator op :: operands)) env).exec m
    run.2 = m' ∧
    (∀ v, vs.find? (·.number?.isNone) = some v → ∃ text, v.render = .ok text ∧
      Raises run.1 .type (op.spelling ++ " operator applied to non-number " ++ text)) ∧
    ((∃ message, Raises run.1 .type message) ↔ ∃ v ∈ vs, v.number? = none) ∧
    ∀ ks : List Int, vs = ks.map .int → ∃ b, run.1 = .ok (.bool b) ∧
      (b = true ↔ ∀ i j : Fin ks.length, i < j → op.Relates (ks.get i) (ks.get j)) := by
  intro run
  have hnamed : ∀ v, vs.find? (·.number?.isNone) = some v → ∃ text, v.render = .ok text ∧
      Raises run.1 .type (op.spelling ++ " operator applied to non-number " ++ text) := by
    intro v hv
    have hnone : v.number? = none := by simpa using List.find?_some hv
    obtain ⟨text, htext⟩ := hwritten v (List.mem_of_find?_eq_some hv) hnone
    exact ⟨text, htext, h.compare_other hop hv htext⟩
  refine ⟨h.machine_operate (not_connective_of_comparison hop), hnamed, ?_, ?_⟩
  · constructor
    · -- numbers alone have a result, and a result is no error
      rintro ⟨message, e, herror, -⟩
      by_contra hall
      push Not at hall
      obtain ⟨ns, rfl⟩ := Datum.exists_numbers hall
      have hresult : run.1 = .ok (.bool (chained op ns)) := h.compare_numbers hop
      rw [hresult] at herror
      cases herror
    · rintro ⟨v, hv, hnone⟩
      obtain ⟨w, hw⟩ : ∃ w, vs.find? (·.number?.isNone) = some w := by
        rw [← Option.isSome_iff_exists, List.find?_isSome]
        exact ⟨v, hv, by simp [hnone]⟩
      obtain ⟨text, -, hraises⟩ := hnamed w hw
      exact ⟨_, hraises⟩
  · rintro ks rfl
    have hvalues : ks.map Datum.int = (ks.map Number.int).map .number := by
      rw [List.map_map]
      rfl
    rw [hvalues] at h
    exact ⟨_, h.compare_numbers hop, chained_int_iff op ks⟩

open Eval in
/-- Integers of which the first is greater than all others, and an operand that changes what a
later one stands for; then a string behind two numbers that already fail. -/
theorem comparison_of_all_pairs_string_behind_failing_pair :
    let m : Machine := { heap := { frames := #[{ bindings := [("x", .int 1)] }] } }
    let m' : Machine := { heap := { frames := #[{ bindings := [("x", .int 5)] }] } }
    let change : Datum := .list [.keyword .define, .symbol "x", .int 5]
    let operands : List Datum :=
      [.int 7, .symbol "x", .list [.keyword .ifThen, change, .int 2], .symbol "x"]
    let run (operands : List Datum) := (eval 4 (.list (.operator .atMost :: operands)) 0).exec m
    InTurn (eval 3) 0 operands m ([7, 1, 2, 5].map .int) m' ∧
      run operands = (.ok (.bool false), m') ∧
      Raises (run [.int 7, .symbol "x", .str "a", .bool true]).1 .type
        "<= operator applied to non-number \"a\"" := by
  intro m m' change operands run
  have hints : InTurn (eval 3) 0 operands m ([7, 1, 2, 5].map .int) m' :=
    .cons rfl (.cons rfl (.cons rfl (.cons rfl (.nil _))))
  have hother : InTurn (eval 3) 0 [.int 7, .symbol "x", .str "a", .bool true] m
      [.int 7, .int 1, .str "a", .bool true] m :=
    .cons rfl (.cons rfl (.cons rfl (.cons rfl (.nil _))))
  have hcompares : Operator.atMost ∈ Operator.comparisons := by decide
  refine ⟨hints, ?_, ?_⟩
  · obtain ⟨hmachine, -, -, hpairs⟩ :=
      comparison_of_all_pairs hcompares hints (by simp [Datum.number?])
    obtain ⟨b, hb, hall⟩ := hpairs [7, 1, 2, 5] rfl
    have hfails : b = false := by
      by_contra hne
      have h71 : (7 : Int) ≤ 1 := hall.mp (by simpa using hne) 0 1 (by decide)
      omega
    exact Prod.ext (by rw [hb, hfails]) hmachine
  · obtain ⟨-, hnamed, -, -⟩ := comparison_of_all_pairs hcompares hother (by
      intro v hv hnone
      simp only [List.mem_cons, List.not_mem_nil, or_false] at hv
      rcases hv with rfl | rfl | rfl | rfl
      · cases hnone
      · cases hnone
      · exact ⟨_, rfl⟩
      · exact ⟨_, rfl⟩)
    obtain ⟨text, htext, hraises⟩ := hnamed (.str "a") rfl
    cases htext
    exact hraises

end SmallScheme
