import SmallScheme.Proofs.Machine

/-!
# Connectives and negation

`and` and `or` evaluate operands up to the first that decides. An operand can define names,
call procedures, run forever, fail, or have a value that is no boolean, so which operands
are evaluated is part of what the forms mean:

* **`Visits`** — the operands that are evaluated, how the last of them ended, and the machine
  that they leave; `Visits.exec_reaches` ties it to the loop of the connectives;
* **`Visits.negations`** — a connective that stops at the other boolean visits the negations
  of the same operands;
* **`Visits.replaced`** — the operands that are not visited play no part.

Main statement: `de_morgan`.
-/

namespace SmallScheme

/-- Reasons to stop of one class: errors of the same kind, or the same reason. -/
inductive Halt.SameClass : Halt → Halt → Prop
  | error {e e' : Error} : e.kind = e'.kind → SameClass (.fault (.error e)) (.fault (.error e'))
  | same (halt : Halt) : SameClass halt halt

/-- Both have the same boolean, or both stop for reasons of one class. -/
inductive SameVerdict : Except Halt Datum → Except Halt Datum → Prop
  | value (b : Bool) : SameVerdict (.ok (.bool b)) (.ok (.bool b))
  | halt {halt halt' : Halt} : halt.SameClass halt' → SameVerdict (.error halt) (.error halt')

theorem SameVerdict.tooDeep_iff {o o' : Except Halt Datum} (h : SameVerdict o o') :
    o = .error .tooDeep ↔ o' = .error .tooDeep := by
  cases h with
  | value b => simp
  | halt hclass => cases hclass <;> simp

/-- The connective that stops at a boolean. -/
def Operator.stoppingAt : Bool → Operator
  | false => .and
  | true => .or

namespace Datum

/-- The connective that stops at a boolean, of some operands. -/
def connection (stop : Bool) (operands : List Datum) : Datum :=
  .list (.operator (.stoppingAt stop) :: operands)

/-- The negation of an expression. -/
def negation (e : Datum) : Datum :=
  .list [.operator .not, e]

end Datum

namespace Eval

open Datum (negation connection)

variable {ev ev' : Evaluator} {env : FrameId} {stop : Bool}

/-! ## Booleans -/

/-- The boolean that a value is, or why an operator does not take it. -/
def demanded (op : Operator) (v : Datum) : Except Halt Bool :=
  match v.bool? with
  | some b => .ok b
  | none =>
    match v.render with
    | .ok text => .error (.fault (.error (.booleanExpected op text)))
    | .error o => .error (.fault (.oversized o))

theorem exec_boolean (op : Operator) (v : Datum) (m : Machine) :
    (boolean op v).exec m = (demanded op v, m) := by
  unfold boolean demanded
  cases v.bool? with
  | some b => rfl
  | none => cases v.render <;> rfl

/-- What `not` makes of the outcome of its operand. -/
def negated (o : Except Halt Datum) : Except Halt Datum := do
  return .bool (!(← demanded .not (← o)))

theorem exec_not (e : Datum) (m : Machine) :
    (operate ev .not [e] env).exec m = (negated ((ev e env).exec m).1, ((ev e env).exec m).2) := by
  simp only [operate]
  rw [exec_bind]
  rcases (ev e env).exec m with ⟨halt | v, m₁⟩
  · rfl
  · dsimp only
    rw [exec_bind, exec_boolean]
    simp only [negated, bind, Except.bind]
    cases demanded .not v <;> rfl

/-! ## The operands that are evaluated -/

/-- `Visits ev env stop operands m visited last m'`: from `m`, the operands in `visited` are
evaluated one after the other, and leave `m'`. All but the last have the boolean that does
not stop; `last` is the outcome of the last one, unless all operands have that boolean. -/
inductive Visits (ev : Evaluator) (env : FrameId) (stop : Bool) : List Datum → Machine →
    List Datum → Option (Except Halt Datum) → Machine → Prop
  | none (m : Machine) : Visits ev env stop [] m [] none m
  | last {e : Datum} {es : List Datum} {m m' : Machine} {o : Except Halt Datum} :
      (ev e env).exec m = (o, m') → o ≠ .ok (.bool (!stop)) →
      Visits ev env stop (e :: es) m [e] (some o) m'
  | next {e : Datum} {es visited : List Datum} {m m₁ m' : Machine}
      {last : Option (Except Halt Datum)} :
      (ev e env).exec m = (.ok (.bool (!stop)), m₁) → Visits ev env stop es m₁ visited last m' →
      Visits ev env stop (e :: es) m (e :: visited) last m'

theorem exists_visits (ev : Evaluator) (env : FrameId) (stop : Bool) (es : List Datum)
    (m : Machine) : ∃ visited last m', Visits ev env stop es m visited last m' := by
  induction es generalizing m with
  | nil => exact ⟨_, _, _, .none m⟩
  | cons e es ih =>
    rcases hrun : (ev e env).exec m with ⟨o, m₁⟩
    by_cases ho : o = .ok (.bool (!stop))
    · rw [ho] at hrun
      obtain ⟨visited, last, m', hrest⟩ := ih m₁
      exact ⟨_, _, _, .next hrun hrest⟩
    · exact ⟨_, _, _, .last hrun ho⟩

section Visited

variable {es visited : List Datum} {m m' : Machine} {last : Option (Except Halt Datum)}

theorem Visits.isInitial (h : Visits ev env stop es m visited last m') : visited <+: es := by
  induction h with
  | none m => exact List.prefix_rfl
  | last _ _ => exact ⟨_, rfl⟩
  | next _ _ ih => exact (List.prefix_cons_inj _).mpr ih

/-- Operands that are not visited can be replaced by any others. -/
theorem Visits.replaced (h : Visits ev env stop es m visited last m') {later : List Datum}
    (hlater : later.length = es.length - visited.length) :
    Visits ev env stop (visited ++ later) m visited last m' := by
  induction h with
  | none m =>
    obtain rfl : later = [] := List.eq_nil_of_length_eq_zero hlater
    exact .none m
  | last hrun ho => exact .last hrun ho
  | next hrun _ ih =>
    refine .next hrun (ih ?_)
    simp only [List.length_cons] at hlater
    omega

/-- Whether the loop of a connective was stopped by a boolean, or why it failed. -/
def stopped (op : Operator) (stop : Bool) : Option (Except Halt Datum) → Except Halt Bool
  | none => .ok false
  | some o => do return (← demanded op (← o)) == stop

theorem Visits.exec_reaches (h : Visits ev env stop es m visited last m') (op : Operator) :
    (reaches op stop ev env es).exec m = (stopped op stop last, m') := by
  induction h with
  | none m => rfl
  | @last e es m m' o hrun ho =>
    rw [reaches, exec_bind, hrun]
    cases o with
    | error halt => rfl
    | ok v =>
      dsimp only
      rw [exec_bind, exec_boolean]
      simp only [stopped, bind, Except.bind]
      cases hv : demanded op v with
      | error halt => rfl
      | ok b =>
        -- a boolean that does not stop is excluded
        have hb : b = stop := by
          unfold demanded at hv
          cases v with
          | bool c =>
            cases hv
            cases b <;> cases stop <;> simp at ho ⊢
          | _ => simp only [Datum.bool?] at hv; split at hv <;> cases hv
        simp only [hb, beq_self_eq_true, if_true]
        rfl
  | next hrun _ ih =>
    have hgoes : ((!stop) == stop) = false := by cases stop <;> rfl
    rw [reaches, exec_bind, hrun]
    dsimp only
    rw [exec_bind, exec_boolean]
    simp only [demanded, Datum.bool?, hgoes]
    exact ih

/-- The value of a connective says whether it was stopped. -/
theorem Visits.exec_connection (h : Visits ev env stop es m visited last m') :
    (operate ev (.stoppingAt stop) es env).exec m =
      ((stopped (.stoppingAt stop) stop last).map fun b => .bool (b == stop), m') := by
  cases stop with
  | false =>
    simp only [Operator.stoppingAt, operate]
    rw [exec_bind, h.exec_reaches]
    cases stopped .and false last with
    | error halt => rfl
    | ok b => cases b <;> rfl
  | true =>
    simp only [Operator.stoppingAt, operate]
    rw [exec_bind, h.exec_reaches]
    cases stopped .or true last with
    | error halt => rfl
    | ok b => cases b <;> rfl

/-! ## Negated operands -/

theorem negated_bool (b : Bool) : negated (.ok (.bool b)) = .ok (.bool (!b)) := rfl

/-- What is not a boolean is not made one by a negation. -/
theorem negated_eq_bool {o : Except Halt Datum} {b : Bool} (h : negated o = .ok (.bool b)) :
    o = .ok (.bool (!b)) := by
  cases o with
  | error halt => cases h
  | ok v =>
    cases v with
    | bool c =>
      cases h
      rw [Bool.not_not]
    | _ =>
      simp only [negated, demanded, Datum.bool?, bind, Except.bind] at h
      split at h
      · cases h
      · next hdemanded => split at hdemanded <;> cases hdemanded

/-- The same operands are visited under a negation, by the connective that stops at the other
boolean. -/
theorem Visits.negations (h : Visits ev env stop es m visited last m')
    (hev : ∀ e m, (ev' (negation e) env).exec m =
      (negated ((ev e env).exec m).1, ((ev e env).exec m).2)) :
    Visits ev' env (!stop) (es.map negation) m (visited.map negation) (last.map negated) m' := by
  induction h with
  | none m => exact .none m
  | last hrun ho =>
    refine .last (by rw [hev, hrun]) fun hgoes => ho ?_
    rw [Bool.not_not] at hgoes
    exact negated_eq_bool hgoes
  | next hrun _ ih =>
    refine .next ?_ ih
    rw [hev, hrun, negated_bool]

/-- A negated operand stops the one connective if the operand stops the other one, and is
refused if the operand is refused. -/
theorem sameVerdict_stopped (stop : Bool) (last : Option (Except Halt Datum)) :
    SameVerdict
      (negated ((stopped (.stoppingAt stop) stop last).map fun b => .bool (b == stop)))
      ((stopped (.stoppingAt (!stop)) (!stop) (last.map negated)).map fun b =>
        .bool (b == !stop)) := by
  cases last with
  | none => cases stop <;> exact .value _
  | some o =>
    cases o with
    | error halt => exact .halt (.same halt)
    | ok v =>
      cases hv : v.bool? with
      | some b =>
        obtain rfl : v = .bool b := by
          cases v <;> cases hv
          rfl
        cases stop <;> cases b <;> exact .value _
      | none =>
        simp only [stopped, negated, demanded, hv, Option.map, bind, Except.bind]
        cases v.render with
        | ok text => exact .halt (.error rfl)
        | error o => exact .halt (.same _)

end Visited

/-! ## The two forms -/

theorem exec_negation (fuel : Nat) (e : Datum) (m : Machine) :
    (eval (fuel + 1) (negation e) env).exec m =
      (negated ((eval fuel e env).exec m).1, ((eval fuel e env).exec m).2) :=
  exec_not e m

section Forms

variable {fuel : Nat} {es visited : List Datum} {m m' : Machine}
  {last : Option (Except Halt Datum)}

theorem Visits.exec_negated_connection (h : Visits (eval fuel) env stop es m visited last m') :
    (eval (fuel + 2) (negation (connection stop es)) env).exec m =
      (negated ((stopped (.stoppingAt stop) stop last).map fun b => .bool (b == stop)), m') := by
  have hconnection : (eval (fuel + 1) (connection stop es) env).exec m = _ := h.exec_connection
  rw [exec_negation, hconnection]

theorem Visits.exec_connected_negations (h : Visits (eval fuel) env stop es m visited last m') :
    (eval (fuel + 2) (connection (!stop) (es.map negation)) env).exec m =
      ((stopped (.stoppingAt (!stop)) (!stop) (last.map negated)).map fun b =>
        .bool (b == !stop), m') :=
  (h.negations (exec_negation fuel)).exec_connection

end Forms

theorem sameVerdict_forms (fuel : Nat) (stop : Bool) (es : List Datum) (env : FrameId)
    (m : Machine) :
    SameVerdict ((eval (fuel + 2) (negation (connection stop es)) env).exec m).1
      ((eval (fuel + 2) (connection (!stop) (es.map negation)) env).exec m).1 := by
  obtain ⟨visited, last, m', h⟩ := exists_visits (eval fuel) env stop es m
  rw [h.exec_negated_connection, h.exec_connected_negations]
  exact sameVerdict_stopped stop last

/-- Both forms end if they may nest two levels deeper than their operands; the second one ends
earlier only if it has no operands. -/
theorem finishes_forms_iff (stop : Bool) (es : List Datum) (env : FrameId) (m : Machine) :
    m.Finishes (negation (connection stop es)) env ↔
      m.Finishes (connection (!stop) (es.map negation)) env := by
  constructor
  · rintro ⟨fuel, hends⟩
    match fuel with
    | 0 => exact absurd rfl hends
    | 1 => exact absurd rfl hends
    | fuel + 2 =>
      have hsame := sameVerdict_forms fuel stop es env m
      exact ⟨fuel + 2, fun hdeep => hends (hsame.tooDeep_iff.mpr hdeep)⟩
  · rintro ⟨fuel, hends⟩
    match fuel with
    | 0 => exact absurd rfl hends
    | 1 =>
      cases es with
      | nil =>
        refine ⟨2, ?_⟩
        rw [Visits.exec_negated_connection (.none m)]
        cases stop <;> rintro ⟨⟩
      | cons e es => cases stop <;> exact absurd rfl hends
    | fuel + 2 =>
      have hsame := sameVerdict_forms fuel stop es env m
      exact ⟨fuel + 2, fun hdeep => hends (hsame.tooDeep_iff.mp hdeep)⟩

end Eval

open Eval Datum in
/-- **The laws of De Morgan hold of operands with effects.** Take the connective that stops at
a boolean, `and` at `#f` or `or` at `#t`, and any operands. Its negation and the other
connective of the negated operands both finish or both do not. However deep they may nest,
they have the same boolean, or errors of the same kind, and leave the same machine: both
evaluate the same operands, in the same order, from the first one on. The operands after
these play no part in either form; any others in their place change nothing. -/
theorem de_morgan (stop : Bool) (es : List Datum) (env : FrameId) (m : Machine) :
    let left (es : List Datum) := negation (connection stop es)
    let right (es : List Datum) := connection (!stop) (es.map negation)
    (m.Finishes (left es) env ↔ m.Finishes (right es) env) ∧
    ∀ fuel,
      let run (e : Datum) := (eval (fuel + 2) e env).exec m
      SameVerdict (run (left es)).1 (run (right es)).1 ∧
      ∃ visited last m', visited <+: es ∧
        Visits (eval fuel) env stop es m visited last m' ∧
        Visits (eval (fuel + 1)) env (!stop) (es.map negation) m (visited.map negation)
          (last.map negated) m' ∧
        (run (left es)).2 = m' ∧ (run (right es)).2 = m' ∧
        ∀ later : List Datum, later.length = es.length - visited.length →
          run (left (visited ++ later)) = run (left es) ∧
          run (right (visited ++ later)) = run (right es) := by
  intro left right
  refine ⟨finishes_forms_iff stop es env m, ?_⟩
  intro fuel run
  obtain ⟨visited, last, m', h⟩ := exists_visits (eval fuel) env stop es m
  refine ⟨sameVerdict_forms fuel stop es env m, visited, last, m', h.isInitial, h,
    h.negations (exec_negation fuel), ?_, ?_, ?_⟩
  · exact congrArg Prod.snd h.exec_negated_connection
  · exact congrArg Prod.snd h.exec_connected_negations
  · intro later hlater
    have hreplaced := h.replaced hlater
    refine ⟨?_, ?_⟩
    · exact hreplaced.exec_negated_connection.trans h.exec_negated_connection.symm
    · exact hreplaced.exec_connected_negations.trans h.exec_connected_negations.symm

open Eval Datum in
/-- An operand that defines a name, one that decides by it, and one that is not a boolean and
is not reached; and the value of the first one, refused by both forms. -/
theorem de_morgan_defining_operand :
    let m : Machine := {}
    let m' : Machine := { heap := { frames := #[{ bindings := [("x", .bool false)] }] } }
    let change : Datum := .list [.keyword .define, .symbol "x", .bool false]
    let es : List Datum := [.list [.keyword .ifThen, change, .bool true], .symbol "x", .int 1]
    let run (e : Datum) := (eval 5 e 0).exec m
    run (negation (connection false es)) = (.ok (.bool true), m') ∧
      run (connection true (es.map negation)) = (.ok (.bool true), m') ∧
      SameVerdict (run (negation (connection true [change]))).1
        (run (connection false [negation change])).1 ∧
      (run (negation (connection true [change]))).2 =
        (run (connection false [negation change])).2 := by
  intro m m' change es run
  have hleft : run (negation (connection false es)) = (.ok (.bool true), m') := rfl
  obtain ⟨-, hforms⟩ := de_morgan false es 0 m
  obtain ⟨hsame, visited, last, m₁, -, -, -, hleft₁, hright₁, -⟩ := hforms 3
  obtain ⟨-, hrefused⟩ := de_morgan true [change] 0 m
  obtain ⟨hsame₂, -, -, m₂, -, -, -, hleft₂, hright₂, -⟩ := hrefused 3
  refine ⟨hleft, ?_, hsame₂, hleft₂.trans hright₂.symm⟩
  have hm : m' = m₁ := (congrArg Prod.snd hleft).symm.trans hleft₁
  refine Prod.ext ?_ (hright₁.trans hm.symm)
  have hvalue : (run (negation (connection false es))).1 = .ok (.bool true) := rfl
  rw [hvalue] at hsame
  cases hsame with
  | value b => rfl

end SmallScheme
