import SmallScheme.Proofs.Balance
import SmallScheme.Proofs.Batches

/-!
# Invariants of heaps

What evaluation keeps true of a heap follows from what the four operations on heaps
keep true of it. An `Invariant` is such a condition, with the data and the frames that
may occur beside it; a heap that is compared with itself makes it a simulation, so
evaluation keeps it however it ends (`Invariant.reached_eval`).

An interpreter is then followed through everything that is entered into it, lines and
complete texts: `Invariant.reached_enter` is one step, `Invariant.keeps_afterEntries` a whole run.
-/

namespace SmallScheme

namespace Heap

/-- A condition on heaps that evaluation keeps. `ok n d` and `live n i` say which data and
which frames may occur when there are `n` frames. -/
structure Invariant where
  keeps : Heap → Prop
  ok : Nat → Datum → Prop
  live : Nat → FrameId → Prop
  ok_mono : ∀ {n n' d}, n ≤ n' → ok n d → ok n' d
  live_mono : ∀ {n n' i}, n ≤ n' → live n i → live n' i
  /-- Leaves of expressions may occur anywhere. -/
  ok_leaf : ∀ {n d}, d.token?.isSome → ok n d
  ok_nil : ∀ n, ok n .nil
  ok_list : ∀ {n ds}, ok n (.list ds) ↔ ∀ d ∈ ds, ok n d
  ok_closure : ∀ {n body i} (names : List String), names.Nodup → ok n body → live n i →
    ok n (.closure (names.map .symbol) body i)
  ok_call : ∀ {n formals body i}, ok n (.closure formals body i) → ok n body ∧ live n i
  live_global : ∀ {h}, keeps h → live h.size globalFrame
  lookup : ∀ {h i x v}, keeps h → live h.size i → h.lookup i x = .ok v → ok h.size v
  declare : ∀ {h i} (x : String), keeps h → live h.size i → keeps (h.update i (·.declare x))
  assign : ∀ {h i v} (x : String), keeps h → live h.size i → ok h.size v →
    keeps (h.update i (·.assign x v))
  child : ∀ {h i}, keeps h → live h.size i →
    live (h.size + 1) h.size ∧ keeps (h.push { outer := some i })

namespace Invariant

variable (I : Invariant)

/-! ## Evaluation -/

/-- A heap that satisfies the condition, beside itself. -/
def simulation : Simulation where
  map := {}
  rel h h' := h = h' ∧ I.keeps h
  ok := I.ok
  live := I.live
  name_injective := Function.injective_id
  ok_mono := I.ok_mono
  live_mono := I.live_mono
  ok_number _ _ := I.ok_leaf rfl
  ok_bool _ _ := I.ok_leaf rfl
  ok_nil := I.ok_nil
  ok_list := I.ok_list
  ok_closure := I.ok_closure
  ok_call := I.ok_call
  lookup {h h' i} x hrel hi := by
    obtain ⟨rfl, hkeeps⟩ := hrel
    show Paired _ _ (h.lookup i x) (h.lookup i x)
    cases hv : h.lookup i x with
    | error e => exact .error .rfl
    | ok v => exact .ok ⟨I.lookup hkeeps hi hv, (Datum.rename_id v).symm⟩
  declare x hrel hi := by
    obtain ⟨rfl, hkeeps⟩ := hrel
    exact ⟨rfl, I.declare x hkeeps hi⟩
  assign {h h' i v} x hrel hi hv := by
    obtain ⟨rfl, hkeeps⟩ := hrel
    rw [Datum.rename_id]
    exact ⟨rfl, I.assign x hkeeps hi hv⟩
  child hrel hi := by
    obtain ⟨rfl, hkeeps⟩ := hrel
    obtain ⟨hlive, hkeeps⟩ := I.child hkeeps hi
    exact ⟨hlive, rfl, rfl, hkeeps⟩

/-- A step led from `h` to a heap `h'` that satisfies the condition, and a result that it
yielded satisfies `post`. -/
structure Reached {ε α : Type} (post : Nat → α → Prop) (h : Heap) (o : Except ε α) (h' : Heap) :
    Prop where
  size_le : h.size ≤ h'.size
  keeps : I.keeps h'
  ok : ∀ a, o = .ok a → post h'.size a

/-- A step that yielded nothing. -/
theorem Reached.error {ε α : Type} {post : Nat → α → Prop} {h h' : Heap} {e : ε}
    (hsize : h.size ≤ h'.size) (hkeeps : I.keeps h') : I.Reached post h (.error e) h' := by
  refine ⟨hsize, hkeeps, ?_⟩
  intro a ha
  cases ha

/-- However evaluation ends, it keeps the condition, and a value that it yields may occur. -/
theorem reached_eval (fuel : Nat) {e : Datum} {env : FrameId} {m : Machine} (hm : I.keeps m.heap)
    (he : I.ok m.heap.size e) (henv : I.live m.heap.size env) :
    I.Reached I.ok m.heap ((eval fuel e env).exec m).1
      ((eval fuel e env).exec m).2.heap := by
  have hagree : I.simulation.Agree m.heap.size I.simulation.Value (eval fuel e env)
      (eval fuel (I.simulation.datum e) env) :=
    (I.simulation.agree_eval fuel).agree he henv
  have hdatum : I.simulation.datum e = e := Datum.rename_id e
  rw [hdatum] at hagree
  obtain ⟨hsize, ⟨-, hkeeps⟩, hpaired⟩ := hagree m m ⟨rfl, hm⟩ (Nat.le_refl _)
  refine ⟨hsize, hkeeps, ?_⟩
  intro v hv
  rw [hv] at hpaired
  cases hpaired with
  | ok hvalue => exact hvalue.ok

theorem ok_expression (n : Nat) {d : Datum} (hd : d.IsExpression) : I.ok n d := by
  induction d using Datum.treeInduction with
  | list items ih =>
    rw [Datum.isExpression_list] at hd
    exact I.ok_list.mpr fun e he => ih e he (hd e he)
  | _ => exact I.ok_leaf (hd _ List.mem_cons_self)

end Invariant

end Heap

/-! ## What is entered into an interpreter -/

/-- The items that a line completed. -/
def Progress.items {α : Type} : Progress α → List α
  | .incomplete => []
  | .complete items => items

/-- What an interpreter is given: one more line, or a complete text. -/
inductive Entry where
  | line (text : String)
  | program (text : String)

namespace Interpreter

/-- An interpreter into which nothing was entered yet. -/
def fresh (limit : Nat) : Interpreter := { depthLimit := limit }

/-- The values of an entry, and the interpreter after it. -/
def enter (i : Interpreter) : Entry → Except Fault (List Datum) × Interpreter
  | .line text => ((i.feed text).1.map Progress.items, (i.feed text).2)
  | .program text => ((i.evalText text).1.map fun v => [v], (i.evalText text).2)

/-- The interpreter after several entries, those that fail included. -/
def afterEntries (i : Interpreter) (entries : List Entry) : Interpreter :=
  entries.foldl (fun i entry => (i.enter entry).2) i

theorem heap_record_reader (i : Interpreter) (reader : Reader) (events : List Event) :
    ({ i with reader }.record events).machine.heap = i.machine.heap := rfl

end Interpreter

/-- Reading hands over expressions. -/
theorem Reader.isExpression_of_feed {r : Reader} {line : String} {exprs : List Datum}
    (h : (r.feed line).outcome = .ok (.complete exprs)) : ∀ e ∈ exprs, e.IsExpression := by
  unfold feed at h
  dsimp only at h
  split at h
  · cases h
  · split at h
    · cases h
    · next hbuild =>
      split at h
      · cases h
      · cases h
        exact isExpression_of_build hbuild

namespace Heap.Invariant

variable (I : Invariant) {i : Interpreter}

theorem reached_evaluate (hi : I.keeps i.machine.heap) {e : Datum} (he : e.IsExpression) :
    I.Reached I.ok i.machine.heap (i.evaluate e).1 (i.evaluate e).2.machine.heap := by
  obtain ⟨houtcome, hheap, -⟩ := i.evaluate_spec e
  obtain ⟨hsize, hkeeps, hok⟩ :=
    I.reached_eval i.depthLimit hi (I.ok_expression _ he) (I.live_global hi)
  rw [hheap, houtcome]
  refine ⟨hsize, hkeeps, ?_⟩
  intro v hv
  exact hok v (mapError_eq_ok_iff.mp hv)

/-- Values that may all occur. -/
abbrev OkEach (n : Nat) (vs : List Datum) : Prop :=
  ∀ v ∈ vs, I.ok n v

theorem reached_evaluateAll (hi : I.keeps i.machine.heap) {es : List Datum}
    (hes : ∀ e ∈ es, e.IsExpression) :
    I.Reached I.OkEach i.machine.heap (i.evaluateAll es).1 (i.evaluateAll es).2.machine.heap := by
  induction es generalizing i with
  | nil => exact ⟨Nat.le_refl _, hi, by simp [Interpreter.evaluateAll, OkEach]⟩
  | cons e es ih =>
    obtain ⟨he, hes⟩ := List.forall_mem_cons.mp hes
    obtain ⟨hsize, hkeeps, hok⟩ := I.reached_evaluate hi he
    rw [Interpreter.evaluateAll]
    rcases hv : i.evaluate e with ⟨f | v, j⟩ <;> rw [hv] at hsize hkeeps hok
    · exact .error I hsize hkeeps
    · obtain ⟨hsize', hkeeps', hoks⟩ := ih hkeeps hes
      rcases hvs : j.evaluateAll es with ⟨f | vs, k⟩ <;> rw [hvs] at hsize' hkeeps' hoks
      · simp only [hvs]
        exact .error I (Nat.le_trans hsize hsize') hkeeps'
      · simp only [hvs]
        refine ⟨Nat.le_trans hsize hsize', hkeeps', ?_⟩
        rintro _ ⟨⟩
        exact List.forall_mem_cons.mpr ⟨I.ok_mono hsize' (hok v rfl), hoks vs rfl⟩

theorem reached_feed (hi : I.keeps i.machine.heap) (line : String) :
    I.Reached I.OkEach i.machine.heap ((i.feed line).1.map Progress.items)
      (i.feed line).2.machine.heap := by
  -- reading records events and leaves the heap alone
  have hheap := i.heap_record_reader (i.reader.feed line).reader
    (Interpreter.readingEvents (i.reader.feed line))
  unfold Interpreter.feed
  dsimp only
  generalize ({ i with reader := (i.reader.feed line).reader } : Interpreter).record
    (Interpreter.readingEvents (i.reader.feed line)) = j at hheap ⊢
  rw [← hheap] at hi ⊢
  cases houtcome : (i.reader.feed line).outcome with
  | error f => exact .error I (Nat.le_refl _) hi
  | ok progress =>
    cases progress with
    | incomplete => exact ⟨Nat.le_refl _, hi, by simp [Except.map, Progress.items, OkEach]⟩
    | complete exprs =>
      have hreached := I.reached_evaluateAll hi (Reader.isExpression_of_feed houtcome)
      dsimp only
      rcases hvs : j.evaluateAll exprs with ⟨f | vs, k⟩ <;> rw [hvs] at hreached
      · exact .error I hreached.size_le hreached.keeps
      · exact hreached

theorem reached_evalText (hi : I.keeps i.machine.heap) (text : String) :
    I.Reached I.OkEach i.machine.heap ((i.evalText text).1.map fun v => [v])
      (i.evalText text).2.machine.heap := by
  unfold Interpreter.evalText
  cases hparse : parse text with
  | error f => exact .error I (Nat.le_refl _) hi
  | ok exprs =>
    have hreached := I.reached_evaluateAll hi (tokenize_of_parse hparse).2
    dsimp only
    rcases hvs : i.evaluateAll exprs with ⟨f | vs, j⟩ <;> rw [hvs] at hreached
    · exact .error I hreached.size_le hreached.keeps
    · refine ⟨hreached.size_le, hreached.keeps, ?_⟩
      rintro _ ⟨⟩ v hv
      rw [List.mem_singleton.mp hv]
      cases hlast : vs.getLast? with
      | none => exact I.ok_nil _
      | some w => exact hreached.ok vs rfl w (List.mem_of_getLast? hlast)

/-- One entry keeps the condition, and its values may occur. -/
theorem reached_enter (hi : I.keeps i.machine.heap) (entry : Entry) :
    I.Reached I.OkEach i.machine.heap (i.enter entry).1 (i.enter entry).2.machine.heap := by
  cases entry with
  | line text =>
    simp only [Interpreter.enter]
    exact I.reached_feed hi text
  | program text =>
    simp only [Interpreter.enter]
    exact I.reached_evalText hi text

/-- A run keeps the condition. -/
theorem keeps_afterEntries (hi : I.keeps i.machine.heap) (entries : List Entry) :
    I.keeps (i.afterEntries entries).machine.heap := by
  induction entries generalizing i with
  | nil => exact hi
  | cons entry entries ih => exact ih (I.reached_enter hi entry).keeps

end Heap.Invariant

end SmallScheme
