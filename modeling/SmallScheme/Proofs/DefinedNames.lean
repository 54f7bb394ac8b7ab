import SmallScheme.Proofs.Definitions
import SmallScheme.Proofs.Placeholders

/-!
# Names of the index have values

The index of a text comes from its lexemes alone, and what the text does is left to its
evaluation. Where all of it can be evaluated, each name that the index lists has a value
in the end: its definition succeeded, so the name was bound to a value, and no later
expression takes a value away.

* **`exec_define_eq_ok`** — what a definition did if it succeeded;
* **`assigned_of_evaluate`**, **`assigned_of_evaluateAll`** — the defined name after the
  definition, and after the whole program;
* **`Editor.indexed_names_have_values`** — the names of the index.
-/

namespace SmallScheme

/-! ## One definition -/

/-- A definition that succeeds has one expression, and it binds the name to its value. -/
theorem exec_define_eq_ok {fuel : Nat} {x : String} {value : List Datum} {env : FrameId}
    {m m' : Machine} {v : Datum}
    (h : (eval fuel (.list (.keyword .define :: .symbol x :: value)) env).exec m = (.ok v, m')) :
    ∃ fuel' e w m₁, value = [e] ∧
      (eval fuel' e env).exec { m with heap := m.heap.update env (·.declare x) } = (.ok w, m₁) ∧
      m'.heap = m₁.heap.update env (·.assign x w) := by
  cases fuel with
  | zero => cases h
  | succ fuel =>
    change (Eval.bindName (eval fuel) .define (.symbol x :: value) env).exec m = _ at h
    match value with
    | [] => cases h
    | _ :: _ :: _ => cases h
    | [e] =>
      change (Eval.declare env x >>= fun _ => eval fuel e env >>= fun w =>
        Eval.assign env x w >>= fun _ => pure Datum.nil).exec m = _ at h
      rw [Eval.exec_bind, Eval.exec_declare] at h
      dsimp only at h
      rw [Eval.exec_bind] at h
      rcases hrun : (eval fuel e env).exec { m with heap := m.heap.update env (·.declare x) }
        with ⟨halt | w, m₁⟩
      · rw [hrun] at h
        cases h
      · rw [hrun] at h
        cases h
        exact ⟨fuel, e, w, m₁, rfl, hrun, rfl⟩

namespace Interpreter

open Heap

variable {i j : Interpreter} {x : String} {v : Datum}

/-- After a definition that succeeded, the name has a value at the top level. -/
theorem assigned_of_evaluate (hi : (placeholderInvariant initial).keeps i.machine.heap)
    {value : List Datum} (he : (Datum.list (.keyword .define :: .symbol x :: value)).IsExpression)
    (h : i.evaluate (.list (.keyword .define :: .symbol x :: value)) = (.ok v, j)) :
    ∃ f, j.machine.heap.frames[globalFrame]? = some f ∧ f.Assigned x := by
  obtain ⟨houtcome, hheap, -⟩ := i.evaluate_spec (.list (.keyword .define :: .symbol x :: value))
  rw [h] at houtcome hheap
  obtain ⟨fuel, e, w, m₁, rfl, hvalue, hassign⟩ :=
    exec_define_eq_ok (Prod.ext (mapError_eq_ok_iff.mp houtcome.symm) rfl)
  have hexpr : e.IsExpression := by
    rw [Datum.isExpression_list] at he
    exact he e (by simp)
  -- the name is declared, and the expression does what it does
  let declared : Machine :=
    { i.machine with heap := i.machine.heap.update globalFrame (·.declare x) }
  have hdeclared : (placeholderInvariant initial).keeps declared.heap :=
    (placeholderInvariant initial).declare x hi trivial
  have hreached := (placeholderInvariant initial).reached_eval fuel hdeclared
    ((placeholderInvariant initial).ok_expression _ hexpr)
    ((placeholderInvariant initial).live_global hdeclared)
  rw [hvalue] at hreached
  have hproper : w.Proper := hreached.ok w rfl
  obtain ⟨f, hf, -⟩ := hreached.keeps.1 globalFrame {} rfl
  refine ⟨f.assign x w, ?_, w, f.bindings.get?_put_self x w, hproper.ne_unassigned⟩
  rw [hheap, hassign, frames_update_self, hf]
  rfl

/-- After a program that succeeded, each name that it defines has a value at the top
level. -/
theorem assigned_of_evaluateAll (hi : (placeholderInvariant initial).keeps i.machine.heap)
    {es vs : List Datum} (hes : ∀ e ∈ es, e.IsExpression)
    (h : i.evaluateAll es = (.ok vs, j)) (hx : x ∈ es.filterMap Datum.definedName?) :
    ∃ f w, j.machine.heap.frames[globalFrame]? = some f ∧ f.bindings.get? x = some w ∧
      w.Proper := by
  obtain ⟨e, he, hname⟩ := List.mem_filterMap.mp hx
  obtain ⟨value, rfl⟩ := Datum.definedName?_eq_some_iff.mp hname
  obtain ⟨before, after, rfl⟩ := List.append_of_mem he
  obtain ⟨hbefore, hrest⟩ := List.forall_mem_append.mp hes
  obtain ⟨hexpr, hafter⟩ := List.forall_mem_cons.mp hrest
  obtain ⟨us, i₁, ws, hrun, hrest, -⟩ := evaluateAll_append_eq_ok_iff.mp h
  obtain ⟨v, i₂, ws, hdefine, hrun', -⟩ := evaluateAll_cons_eq_ok_iff.mp hrest
  have hkeeps₁ := ((placeholderInvariant initial).reached_evaluateAll hi hbefore).keeps
  rw [hrun] at hkeeps₁
  obtain ⟨f, hf, hassigned⟩ := assigned_of_evaluate hkeeps₁ hexpr hdefine
  have hkeeps₂ := ((placeholderInvariant initial).reached_evaluate hkeeps₁ hexpr).keeps
  rw [hdefine] at hkeeps₂
  -- from here on, no name loses its value
  obtain ⟨hsettles, hholds⟩ := ((placeholderInvariant i₂.machine.heap).reached_evaluateAll
    ⟨.refl _, hkeeps₂.2⟩ hafter).keeps
  rw [hrun'] at hsettles hholds
  obtain ⟨f', hf', hgrows⟩ := hsettles globalFrame f hf
  obtain ⟨w, hw, hne⟩ := hgrows.assigned x hassigned
  have hproper := (hholds globalFrame f' hf' (x, w) (Bindings.mem_of_get? hw)).resolve_left hne
  exact ⟨f', w, hf', hw, hproper⟩

end Interpreter

/-! ## The names of the index -/

namespace Editor

open Interpreter in
/-- **What the index lists is defined.** If a text can be evaluated in a fresh interpreter, it
has an index, and at the end each name of that index is bound at the top level, to a value
without the placeholder. -/
theorem indexed_names_have_values (limit : Nat) (text : String) (v : Datum) (i : Interpreter)
    (h : (fresh limit).evalText text = (.ok v, i)) :
    ∃ index, Index.ofText text = .ok index ∧
      ∀ d ∈ index.definitions, ∃ f w, i.machine.heap.frames[globalFrame]? = some f ∧
        f.bindings.get? d.name = some w ∧ w.Proper := by
  cases hparse : parse text with
  | error f => simp [evalText, hparse] at h
  | ok exprs =>
    obtain ⟨-, hexprs⟩ := tokenize_of_parse hparse
    obtain ⟨vs, hrun, -⟩ := (evalText_eq_ok_iff hparse).mp h
    obtain ⟨index, items, hindex, hdefinitions, -, hspell⟩ := exists_index_of_parse hparse
    refine ⟨index, hindex, ?_⟩
    intro d hd
    have hname : d.name ∈ exprs.filterMap Datum.definedName? := by
      rw [← walk_names hexprs hspell, ← List.mem_eraseDups, ← (names_collectDefinitions _ _).1,
        ← hdefinitions]
      exact List.mem_map_of_mem hd
    have hstart : (Heap.placeholderInvariant Heap.initial).keeps (fresh limit).machine.heap :=
      ⟨.refl _, Heap.holds_initial _⟩
    exact assigned_of_evaluateAll hstart hexprs hrun hname

open Interpreter in
/-- A procedure that uses a name before its definition, and a name that is defined twice, the
second time with a call of its first value. -/
theorem indexed_names_have_values_redefinition :
    let text := "(define x (lambda () y))\n(define y 2)\n(define X (x))"
    (Index.ofText text).map (fun index => index.definitions.map (·.name)) = .ok ["x", "y"] ∧
      ∃ i, (fresh 9).evalText text = (.ok .nil, i) ∧
        ∃ index, Index.ofText text = .ok index ∧
          ∀ d ∈ index.definitions, ∃ f w, i.machine.heap.frames[globalFrame]? = some f ∧
            f.bindings.get? d.name = some w ∧ w.Proper := by
  intro text
  have hnames : (Index.ofText text).map (fun index => index.definitions.map (·.name)) =
      .ok ["x", "y"] := by
    dsimp only [text]
    rfl
  have hparse : parse text = .ok [
      .list [.keyword .define, .symbol "x", .list [.keyword .lambda, .list [], .symbol "y"]],
      .list [.keyword .define, .symbol "y", .int 2],
      .list [.keyword .define, .symbol "x", .list [.symbol "x"]]] := by
    dsimp only [text]
    rfl
  obtain ⟨i, hrun⟩ : ∃ i, (fresh 9).evalText text = (.ok .nil, i) :=
    ⟨_, (evalText_eq_ok_iff hparse).mpr ⟨[.nil, .nil, .nil], rfl, rfl⟩⟩
  exact ⟨hnames, i, hrun, indexed_names_have_values 9 text .nil i hrun⟩

end Editor

end SmallScheme
