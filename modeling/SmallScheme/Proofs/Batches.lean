import SmallScheme.Interpreter
import SmallScheme.Proofs.Simulation

/-!
# Evaluation in batches

A session evaluates expressions in batches, as lines complete them, and records events
between the batches; a complete text is evaluated at once. Neither makes a difference.

* **`evaluate_alike`** — evaluation reads the heap and never the trace of events, so
  interpreters with the same heap go on alike;
* **`evaluateAll_append_eq_ok_iff`** — a batch and then another is both at once, and
  **`exists_failing`** says where a batch ends that fails.
-/

namespace SmallScheme

/-! ## The trace is not read -/

/-- Heaps that are equal. -/
def Heap.sameSimulation : Simulation :=
  .everywhere {} Eq Function.injective_id
    (fun {h h' i} x hrel => by
      subst hrel
      show Paired _ _ (h.lookup i x) (h.lookup i x)
      cases h.lookup i x with
      | error e => exact .error .rfl
      | ok v => exact .ok (Datum.rename_id v).symm)
    (fun x hrel => by
      subst hrel
      rfl)
    (fun x v hrel => by
      subst hrel
      rw [Datum.rename_id]
      rfl)
    (fun hrel => by
      subst hrel
      exact ⟨rfl, rfl⟩)

theorem reached_eval_of_heap_eq (fuel : Nat) (e : Datum) (env : FrameId) {m m' : Machine}
    (h : m.heap = m'.heap) :
    Heap.sameSimulation.Reached Heap.sameSimulation.Value m ((eval fuel e env).exec m)
      ((eval fuel e env).exec m') := by
  have hagree : Heap.sameSimulation.Agree 0 Heap.sameSimulation.Value (eval fuel e env)
      (eval fuel (Heap.sameSimulation.datum e) env) :=
    (Heap.sameSimulation.agree_eval fuel).agree trivial trivial
  have hdatum : Heap.sameSimulation.datum e = e := Datum.rename_id e
  rw [hdatum] at hagree
  exact hagree m m' h (Nat.zero_le _)

/-- Evaluation in machines with the same heap has the same outcome and leaves the same
heap. -/
theorem exec_eval_of_heap_eq (fuel : Nat) (e : Datum) (env : FrameId) {m m' : Machine}
    (h : m.heap = m'.heap) :
    ((eval fuel e env).exec m).1 = ((eval fuel e env).exec m').1 ∧
      ((eval fuel e env).exec m).2.heap = ((eval fuel e env).exec m').2.heap := by
  obtain ⟨-, hheap, hpaired⟩ := reached_eval_of_heap_eq fuel e env h
  have houtcome := eq_map_of_paired rfl hpaired
  have hid : Datum.rename Heap.sameSimulation.map = id := funext Datum.rename_id
  rw [hid] at houtcome
  refine ⟨?_, hheap⟩
  rw [houtcome]
  cases ((eval fuel e env).exec m).1 <;> rfl

/-- Evaluation reads no literals: an integer with too many digits that stops it was to be
written into a message. -/
theorem isWritten_of_eval {fuel : Nat} {e : Datum} {env : FrameId} {m : Machine} {o : Oversized}
    (h : ((eval fuel e env).exec m).1 = .error (.fault (.oversized o))) : o.IsWritten := by
  have houtcome := (reached_eval_of_heap_eq fuel e env (Eq.refl m.heap)).outcome
  rw [h] at houtcome
  cases houtcome with
  | error halike =>
    cases halike with
    | oversized hwritten => exact hwritten

/-- The fault that an interpreter reports for an early stop. -/
def Halt.toFault : Halt → Fault
  | .fault f => f
  | .tooDeep => .error .depthExceeded

namespace Interpreter

/-- The same heap and the same depth limit. What the readers hold and which events were
recorded may differ. -/
structure Alike (i j : Interpreter) : Prop where
  heap : i.machine.heap = j.machine.heap
  depthLimit : i.depthLimit = j.depthLimit

theorem Alike.refl (i : Interpreter) : i.Alike i := ⟨rfl, rfl⟩

/-- The outcome of an expression is that of its run; the reader and the depth limit stay. -/
theorem evaluate_spec (i : Interpreter) (e : Datum) :
    (i.evaluate e).1 =
        ((eval i.depthLimit e globalFrame).exec i.machine).1.mapError Halt.toFault ∧
      (i.evaluate e).2.machine.heap =
        ((eval i.depthLimit e globalFrame).exec i.machine).2.heap ∧
      (i.evaluate e).2.depthLimit = i.depthLimit ∧ (i.evaluate e).2.reader = i.reader := by
  unfold evaluate Eval.exec
  rcases (eval i.depthLimit e globalFrame).run.run i.machine with ⟨halt | v, m⟩
  · cases halt <;> exact ⟨rfl, rfl, rfl, rfl⟩
  · exact ⟨rfl, rfl, rfl, rfl⟩

theorem isWritten_of_evaluate {i k : Interpreter} {e : Datum} {o : Oversized}
    (h : i.evaluate e = (.error (.oversized o), k)) : o.IsWritten := by
  have houtcome := (i.evaluate_spec e).1
  rw [h] at houtcome
  rcases hrun : ((eval i.depthLimit e globalFrame).exec i.machine).1 with halt | v
  · rw [hrun] at houtcome
    cases halt with
    | tooDeep => cases houtcome
    | fault f =>
      cases houtcome
      exact isWritten_of_eval hrun
  · rw [hrun] at houtcome
    cases houtcome

theorem evaluate_alike {i j : Interpreter} (h : i.Alike j) (e : Datum) :
    (i.evaluate e).1 = (j.evaluate e).1 ∧ (i.evaluate e).2.Alike (j.evaluate e).2 := by
  obtain ⟨houtcome, hheap, hlimit, -⟩ := i.evaluate_spec e
  obtain ⟨houtcome', hheap', hlimit', -⟩ := j.evaluate_spec e
  have hexec := exec_eval_of_heap_eq j.depthLimit e globalFrame h.heap
  rw [h.depthLimit] at houtcome hheap hlimit
  refine ⟨?_, ?_, ?_⟩
  · rw [houtcome, houtcome', hexec.1]
  · rw [hheap, hheap', hexec.2]
  · rw [hlimit, hlimit']

/-! ## One expression after the other -/

section Batches

variable {i k : Interpreter} {e : Datum} {es as bs vs : List Datum} {f : Fault}

theorem evaluateAll_cons_eq_ok_iff :
    i.evaluateAll (e :: es) = (.ok vs, k) ↔
      ∃ v j ws, i.evaluate e = (.ok v, j) ∧ j.evaluateAll es = (.ok ws, k) ∧ vs = v :: ws := by
  rw [evaluateAll]
  rcases i.evaluate e with ⟨f | v, j⟩
  · simp
  · rcases hrest : j.evaluateAll es with ⟨f | ws, k'⟩
    · simp [hrest]
    · simp only [hrest, Prod.mk.injEq, Except.ok.injEq]
      constructor
      · rintro ⟨rfl, rfl⟩
        exact ⟨v, j, ws, ⟨rfl, rfl⟩, hrest, rfl⟩
      · rintro ⟨_, _, ws', ⟨rfl, rfl⟩, hrest', rfl⟩
        rw [hrest] at hrest'
        cases hrest'
        exact ⟨rfl, rfl⟩

theorem evaluateAll_cons_eq_error_iff :
    i.evaluateAll (e :: es) = (.error f, k) ↔
      i.evaluate e = (.error f, k) ∨
        ∃ v j, i.evaluate e = (.ok v, j) ∧ j.evaluateAll es = (.error f, k) := by
  rw [evaluateAll]
  rcases i.evaluate e with ⟨f | v, j⟩
  · simp
  · rcases hrest : j.evaluateAll es with ⟨f | ws, k'⟩
    · simp [hrest]
    · simp [hrest]

/-- Two batches succeed if both at once do. -/
theorem evaluateAll_append_eq_ok_iff :
    i.evaluateAll (as ++ bs) = (.ok vs, k) ↔
      ∃ us j ws, i.evaluateAll as = (.ok us, j) ∧ j.evaluateAll bs = (.ok ws, k) ∧
        vs = us ++ ws := by
  induction as generalizing i vs with
  | nil => simp [evaluateAll]
  | cons a as ih =>
    rw [List.cons_append, evaluateAll_cons_eq_ok_iff]
    simp only [evaluateAll_cons_eq_ok_iff, ih]
    constructor
    · rintro ⟨v, j, _, hv, ⟨us, j', ws, hus, hws, rfl⟩, rfl⟩
      exact ⟨v :: us, j', ws, ⟨v, j, us, hv, hus, rfl⟩, hws, rfl⟩
    · rintro ⟨_, j', ws, ⟨v, j, us, hv, hus, rfl⟩, hws, rfl⟩
      exact ⟨v, j, us ++ ws, hv, ⟨us, j', ws, hus, hws, rfl⟩, rfl⟩

/-- Two batches fail where the first one does, or where the second one does after it. -/
theorem evaluateAll_append_eq_error_iff :
    i.evaluateAll (as ++ bs) = (.error f, k) ↔
      i.evaluateAll as = (.error f, k) ∨
        ∃ us j, i.evaluateAll as = (.ok us, j) ∧ j.evaluateAll bs = (.error f, k) := by
  induction as generalizing i with
  | nil => simp [evaluateAll]
  | cons a as ih =>
    rw [List.cons_append, evaluateAll_cons_eq_error_iff, evaluateAll_cons_eq_error_iff]
    simp only [evaluateAll_cons_eq_ok_iff, ih]
    constructor
    · rintro (h | ⟨v, j, hv, h | ⟨us, j', hus, h⟩⟩)
      · exact .inl (.inl h)
      · exact .inl (.inr ⟨v, j, hv, h⟩)
      · exact .inr ⟨v :: us, j', ⟨v, j, us, hv, hus, rfl⟩, h⟩
    · rintro ((h | ⟨v, j, hv, h⟩) | ⟨_, j', ⟨v, j, us, hv, hus, rfl⟩, h⟩)
      · exact .inl h
      · exact .inr ⟨v, j, hv, .inl h⟩
      · exact .inr ⟨v, j, hv, .inr ⟨us, j', hus, h⟩⟩

/-- A batch that fails has a first expression that does. -/
theorem exists_failing (h : i.evaluateAll es = (.error f, k)) :
    ∃ before e after vs j, es = before ++ e :: after ∧ i.evaluateAll before = (.ok vs, j) ∧
      j.evaluate e = (.error f, k) := by
  induction es generalizing i with
  | nil => simp [evaluateAll] at h
  | cons e es ih =>
    rcases evaluateAll_cons_eq_error_iff.mp h with h | ⟨v, j, hv, h⟩
    · exact ⟨[], e, es, [], i, rfl, rfl, h⟩
    · obtain ⟨before, e', after, vs, j', rfl, hbefore, he'⟩ := ih h
      exact ⟨e :: before, e', after, v :: vs, j', rfl,
        evaluateAll_cons_eq_ok_iff.mpr ⟨v, j, vs, hv, hbefore, rfl⟩, he'⟩

theorem reader_evaluateAll (i : Interpreter) (es : List Datum) :
    (i.evaluateAll es).2.reader = i.reader := by
  induction es generalizing i with
  | nil => rfl
  | cons e es ih =>
    have hreader := (i.evaluate_spec e).2.2.2
    rw [evaluateAll]
    rcases hv : i.evaluate e with ⟨f | v, j⟩
    · rwa [hv] at hreader
    · rw [hv] at hreader
      have hrest := ih j
      rcases hws : j.evaluateAll es with ⟨f | ws, k⟩ <;>
        · rw [hws] at hrest
          simpa [hws] using hrest.trans hreader

theorem evaluateAll_alike {i j : Interpreter} (h : i.Alike j) (es : List Datum) :
    (i.evaluateAll es).1 = (j.evaluateAll es).1 ∧
      (i.evaluateAll es).2.Alike (j.evaluateAll es).2 := by
  induction es generalizing i j with
  | nil => exact ⟨rfl, h⟩
  | cons e es ih =>
    obtain ⟨houtcome, halike⟩ := evaluate_alike h e
    rw [evaluateAll, evaluateAll]
    rcases hi : i.evaluate e with ⟨o, i'⟩
    rcases hj : j.evaluate e with ⟨o', j'⟩
    rw [hi, hj] at houtcome halike
    dsimp only at houtcome halike
    subst houtcome
    cases o with
    | error f => exact ⟨rfl, halike⟩
    | ok v =>
      obtain ⟨houtcome, halike⟩ := ih halike
      rcases hi' : i'.evaluateAll es with ⟨o, i''⟩
      rcases hj' : j'.evaluateAll es with ⟨o', j''⟩
      rw [hi', hj'] at houtcome halike
      dsimp only at houtcome halike
      subst houtcome
      cases o with
      | error f => simpa [hi', hj'] using halike
      | ok ws => simpa [hi', hj'] using halike

/-- The outcome of a batch in an interpreter, from that in one like it. -/
theorem exists_alike {i j k : Interpreter} {o : Except Fault (List Datum)} (h : i.Alike j)
    (hj : j.evaluateAll es = (o, k)) : ∃ k', i.evaluateAll es = (o, k') ∧ k'.Alike k := by
  obtain ⟨houtcome, halike⟩ := evaluateAll_alike h es
  rw [hj] at houtcome halike
  exact ⟨(i.evaluateAll es).2, Prod.ext houtcome rfl, halike⟩

theorem length_of_evaluateAll (h : i.evaluateAll es = (.ok vs, k)) : vs.length = es.length := by
  induction es generalizing i vs with
  | nil =>
    cases h
    rfl
  | cons e es ih =>
    obtain ⟨v, j, ws, -, hws, rfl⟩ := evaluateAll_cons_eq_ok_iff.mp h
    rw [List.length_cons, List.length_cons, ih hws]

/-! ## A complete text -/

variable {text : String}

theorem evalText_eq_ok_iff {v : Datum} (hparse : parse text = .ok es) :
    i.evalText text = (.ok v, k) ↔
      ∃ vs, i.evaluateAll es = (.ok vs, k) ∧ v = vs.getLast?.getD .nil := by
  simp only [evalText, hparse]
  rcases i.evaluateAll es with ⟨f | vs, k'⟩
  · simp
  · simp only [Prod.mk.injEq, Except.ok.injEq]
    constructor
    · rintro ⟨rfl, rfl⟩
      exact ⟨vs, ⟨rfl, rfl⟩, rfl⟩
    · rintro ⟨_, ⟨rfl, rfl⟩, rfl⟩
      exact ⟨rfl, rfl⟩

theorem evalText_eq_error_iff (hparse : parse text = .ok es) :
    i.evalText text = (.error f, k) ↔ i.evaluateAll es = (.error f, k) := by
  simp only [evalText, hparse]
  rcases i.evaluateAll es with ⟨f | vs, k'⟩ <;> simp

end Batches

end Interpreter

end SmallScheme
