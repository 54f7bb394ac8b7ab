import SmallScheme.Proofs.PrintRead
import SmallScheme.Proofs.Scope

/-!
# Evaluation without procedures

An expression in which neither `lambda` nor a procedure occurs cannot recur: each form
evaluates parts of itself, and where no name stands for a procedure, there is none to be
called. Data that look like code make no difference. They are built by `quote` and
`cons` and taken apart by `car` and `cdr`, but nothing evaluates a value again.

So evaluation of such an expression ends, and nests no deeper than the expression does.
That no procedure is called is said in two ways: nothing is recorded, and putting anything
else in the place of procedure calls makes no difference (`evalCalling`).

* **`EndAlike post c c'`** — from a machine without procedures, the two computations do the
  same and come to an end, with such a machine; it holds of sequences, so each form gets
  one short lemma.

Main statement: `eval_ends_without_procedures`.
-/

namespace SmallScheme

/-! ## Data without procedures -/

namespace Datum

/-- There is no procedure in the datum. -/
def ClosureFree (d : Datum) : Prop :=
  d.EveryClosure fun _ _ _ => False

theorem closureFree_list (items : List Datum) :
    (Datum.list items).ClosureFree ↔ ∀ d ∈ items, d.ClosureFree :=
  everyClosure_list items

theorem not_closureFree_closure (formals : List Datum) (body : Datum) (frame : FrameId) :
    ¬ (Datum.closure formals body frame).ClosureFree := by
  rw [ClosureFree, everyClosure_closure]
  exact fun h => h.1

/-- Neither `lambda` nor a procedure is among the leaves of the expression. -/
def FirstOrder (e : Datum) : Prop :=
  ∀ d ∈ e.leaves,
    d ≠ .keyword .lambda ∧ ∀ formals body frame, d ≠ .closure formals body frame

theorem firstOrder_list (items : List Datum) :
    (Datum.list items).FirstOrder ↔ ∀ e ∈ items, e.FirstOrder := by
  unfold FirstOrder
  rw [leaves_list]
  simp only [List.mem_flatMap]
  constructor
  · intro h e he d hd
    exact h d ⟨e, he, hd⟩
  · rintro h d ⟨e, he, hd⟩
    exact h e he d hd

theorem FirstOrder.closureFree {e : Datum} (h : e.FirstOrder) : e.ClosureFree := by
  induction e using treeInduction with
  | list items ih =>
    rw [firstOrder_list] at h
    exact (closureFree_list items).mpr fun e he => ih e he (h e he)
  | closure formals body frame =>
    exact absurd rfl ((h _ List.mem_cons_self).2 formals body frame)
  | _ => trivial

/-! ## Depth -/

mutual

/-- How deep lists nest in a datum, the datum itself included. -/
def depth : Datum → Nat
  | .list items => depthEach items + 1
  | _ => 1

/-- How deep lists nest in data. -/
def depthEach : List Datum → Nat
  | [] => 0
  | d :: ds => max d.depth (depthEach ds)

end

theorem depth_pos (d : Datum) : 0 < d.depth := by
  cases d with
  | list items => exact Nat.succ_pos _
  | _ => exact Nat.one_pos

theorem depth_le_depthEach {d : Datum} {ds : List Datum} (hd : d ∈ ds) :
    d.depth ≤ depthEach ds := by
  induction ds with
  | nil => exact absurd hd List.not_mem_nil
  | cons e es ih =>
    rw [depthEach]
    rcases List.mem_cons.mp hd with rfl | hd
    · exact Nat.le_max_left _ _
    · exact Nat.le_trans (ih hd) (Nat.le_max_right _ _)

/-- Neither `lambda` nor a procedure occurs, and lists nest at most `n` deep. -/
structure Shallow (n : Nat) (e : Datum) : Prop where
  firstOrder : e.FirstOrder
  depth_le : e.depth ≤ n

/-- The items of a list nest less deep. -/
theorem Shallow.item {n : Nat} {items : List Datum} (h : (Datum.list items).Shallow (n + 1))
    {e : Datum} (he : e ∈ items) : e.Shallow n := by
  refine ⟨(firstOrder_list items).mp h.firstOrder e he, ?_⟩
  have hlist := h.depth_le
  rw [depth] at hlist
  exact Nat.le_trans (depth_le_depthEach he) (Nat.le_of_succ_le_succ hlist)

theorem Shallow.inside {n : Nat} {items : List Datum} (h : (Datum.list items).Shallow n)
    {e : Datum} (he : e ∈ items) : e.Shallow n := by
  obtain ⟨hfirst, hdepth⟩ := Shallow.item ⟨h.firstOrder, Nat.le_succ_of_le h.depth_le⟩ he
  exact ⟨hfirst, hdepth⟩

theorem Shallow.of_items? {n : Nat} {d : Datum} (h : d.Shallow n) {items : List Datum}
    (hitems : d.items? = some items) : ∀ e ∈ items, e.Shallow n := by
  cases d with
  | list ds =>
    cases hitems
    exact fun e he => h.inside he
  | _ => cases hitems

theorem Shallow.of_pair? {n : Nat} {d : Datum} (h : d.Shallow n) {p : String × Datum}
    (hp : Eval.pair? d = some p) : p.2.Shallow n := by
  unfold Eval.pair? at hp
  split at hp
  · cases hp
    exact h.inside (List.mem_cons_of_mem _ List.mem_cons_self)
  · cases hp

end Datum

/-- No name is bound to a value with a procedure in it. -/
def Heap.ClosureFree (h : Heap) : Prop :=
  h.Holds fun _ d => d.ClosureFree

namespace Eval

variable {α β : Type}

/-! ## Computations that end -/

/-- A run from `m` came to an end without calling a procedure: it ended with a result that
satisfies `post` or with a fault, recorded nothing, and left no procedure in the heap. -/
structure Ended (post : α → Prop) (m : Machine) (r : Except Halt α × Machine) : Prop where
  ends : r.1 ≠ .error .tooDeep
  trace : r.2.trace = m.trace
  heap : r.2.heap.ClosureFree
  ok : ∀ a, r.1 = .ok a → post a

/-- From a machine without procedures both computations do the same, and come to an end. -/
def EndAlike (post : α → Prop) (c c' : Eval α) : Prop :=
  ∀ m : Machine, m.heap.ClosureFree → c'.exec m = c.exec m ∧ Ended post m (c.exec m)

theorem EndAlike.bind {post : α → Prop} {post' : β → Prop} {c c' : Eval α} {f f' : α → Eval β}
    (hc : EndAlike post c c') (hf : ∀ a, post a → EndAlike post' (f a) (f' a)) :
    EndAlike post' (c >>= f) (c' >>= f') := by
  intro m hm
  obtain ⟨hsame, hended⟩ := hc m hm
  rw [exec_bind, exec_bind, hsame]
  rcases hrun : c.exec m with ⟨halt | a, m₁⟩ <;> rw [hrun] at hended
  · have hhalt : halt ≠ .tooDeep := fun h => hended.ends (congrArg Except.error h)
    refine ⟨rfl, fun h => hhalt (Except.error.inj h), hended.trace, hended.heap, ?_⟩
    rintro b ⟨⟩
  · obtain ⟨hsame₂, hended₂⟩ := hf a (hended.ok a rfl) m₁ hended.heap
    exact ⟨hsame₂, hended₂.ends, hended₂.trace.trans hended.trace, hended₂.heap, hended₂.ok⟩

theorem endAlike_pure {post : α → Prop} {a : α} (ha : post a) :
    EndAlike post (pure a) (pure a) := by
  intro m hm
  refine ⟨rfl, ?_, rfl, hm, ?_⟩
  · rintro ⟨⟩
  · rintro _ ⟨⟩
    exact ha

theorem endAlike_fault {post : α → Prop} (f : Fault) :
    EndAlike post (throw (.fault f) : Eval α) (throw (.fault f)) := by
  intro m hm
  refine ⟨rfl, ?_, rfl, hm, ?_⟩
  · rintro ⟨⟩
  · rintro _ ⟨⟩

theorem endAlike_fail {post : α → Prop} (e : Error) :
    EndAlike post (fail e : Eval α) (fail e) :=
  endAlike_fault (.error e)

/-- Stopping with an error that quotes a text. -/
theorem endAlike_failWith {post : α → Prop} (e : String → Error) (t : Except Oversized String) :
    EndAlike post (do fail (e (← text t)) : Eval α) (do fail (e (← text t))) := by
  cases t with
  | ok s => exact endAlike_fail (e s)
  | error o => exact endAlike_fault (.oversized o)

theorem endAlike_lookup (env : FrameId) (x : String) :
    EndAlike Datum.ClosureFree (lookup env x) (lookup env x) := by
  intro m hm
  refine ⟨rfl, ?_⟩
  rw [exec_lookup]
  cases hv : m.heap.lookup env x with
  | ok v => exact (endAlike_pure (hm.lookup hv) m hm).2
  | error e => exact (endAlike_fail e m hm).2

theorem endAlike_declare (env : FrameId) (x : String) :
    EndAlike (fun _ => True) (declare env x) (declare env x) := by
  intro m hm
  refine ⟨rfl, ?_, rfl, hm.declare trivial, fun _ _ => trivial⟩
  rintro ⟨⟩

theorem endAlike_assign (env : FrameId) (x : String) {v : Datum} (hv : v.ClosureFree) :
    EndAlike (fun _ => True) (assign env x v) (assign env x v) := by
  intro m hm
  refine ⟨rfl, ?_, rfl, hm.assign hv, fun _ _ => trivial⟩
  rintro ⟨⟩

theorem endAlike_child (env : FrameId) : EndAlike (fun _ => True) (child env) (child env) := by
  intro m hm
  refine ⟨rfl, ?_, rfl, hm.push (fun _ hd => hd) (some env), fun _ _ => trivial⟩
  rintro ⟨⟩

/-! ## Data that the forms take apart -/

section Parts

variable {n : Nat}

theorem endAlike_pairs (form : Keyword) {ds : List Datum} (hds : ∀ d ∈ ds, d.Shallow n) :
    EndAlike (fun ps => ∀ p ∈ ps, p.2.Shallow n) (pairs form ds) (pairs form ds) := by
  induction ds with
  | nil => exact endAlike_pure fun _ hp => absurd hp List.not_mem_nil
  | cons d ds ih =>
    obtain ⟨hd, hds⟩ := List.forall_mem_cons.mp hds
    rw [pairs]
    split
    · next p hp =>
      refine (ih hds).bind fun ps hps => endAlike_pure ?_
      exact List.forall_mem_cons.mpr ⟨hd.of_pair? hp, hps⟩
    · exact endAlike_failWith _ _

theorem endAlike_splitLet (form : Keyword) {parts : List Datum}
    (hparts : ∀ d ∈ parts, d.Shallow n) :
    EndAlike (fun split => (∀ p ∈ split.1, p.2.Shallow n) ∧ split.2.Shallow n)
      (splitLet form parts) (splitLet form parts) := by
  unfold splitLet
  split
  · next bindings body =>
    have hbindings : bindings.Shallow n := hparts _ List.mem_cons_self
    have hbody : body.Shallow n := hparts _ (List.mem_cons_of_mem _ List.mem_cons_self)
    split
    · next ds hds =>
      exact (endAlike_pairs form (hbindings.of_items? hds)).bind fun ps hps =>
        endAlike_pure ⟨hps, hbody⟩
    · exact endAlike_failWith _ _
  · exact endAlike_fail _

theorem endAlike_declareAll (env : FrameId) (ps : List (String × Datum)) :
    EndAlike (fun _ => True) (declareAll env ps) (declareAll env ps) := by
  induction ps with
  | nil => exact endAlike_pure trivial
  | cons p ps ih => exact (endAlike_declare env p.1).bind fun _ _ => ih

theorem closureFree_of_items? {v : Datum} (hv : v.ClosureFree) {items : List Datum}
    (hitems : v.items? = some items) : ∀ d ∈ items, d.ClosureFree := by
  cases v with
  | list ds =>
    cases hitems
    exact (Datum.closureFree_list _).mp hv
  | _ => cases hitems

theorem endAlike_uncons (form : Keyword) {v : Datum} (hv : v.ClosureFree) :
    EndAlike (fun split => split.1.ClosureFree ∧ ∀ d ∈ split.2, d.ClosureFree)
      (uncons form v) (uncons form v) := by
  unfold uncons
  split
  · next hitems =>
    exact endAlike_pure (List.forall_mem_cons.mp (closureFree_of_items? hv hitems))
  · exact endAlike_fail _
  · exact endAlike_failWith _ _

theorem endAlike_numbers (op : Operator) (vs : List Datum) :
    EndAlike (fun _ => True) (numbers op vs) (numbers op vs) := by
  induction vs with
  | nil => exact endAlike_pure trivial
  | cons v vs ih =>
    rw [numbers]
    split
    · exact ih.bind fun _ _ => endAlike_pure trivial
    · exact endAlike_failWith _ _

theorem endAlike_boolean (op : Operator) (v : Datum) :
    EndAlike (fun _ => True) (boolean op v) (boolean op v) := by
  unfold boolean
  split
  · exact endAlike_pure trivial
  · exact endAlike_failWith _ _

theorem endAlike_arithmetic (op : Operator) (r : Except ArithmeticFault Number) :
    EndAlike Datum.ClosureFree (arithmetic op r) (arithmetic op r) := by
  unfold arithmetic
  split
  · exact endAlike_pure trivial
  · exact endAlike_fail _
  · exact endAlike_fail _

end Parts

/-! ## The forms

Two evaluators that do the same with expressions up to some depth, and come to an end,
make every form of such expressions do so. -/

/-- Expressions up to the depth `n` are evaluated alike, and evaluation of them ends. -/
structure EndsOn (n : Nat) (ev ev' : Evaluator) : Prop where
  alike : ∀ {e : Datum} (env : FrameId), e.Shallow n →
    EndAlike Datum.ClosureFree (ev e env) (ev' e env)

section Forms

variable {n : Nat} {ev ev' : Evaluator} (hev : EndsOn n ev ev')

include hev

theorem endAlike_each (env : FrameId) {es : List Datum} (hes : ∀ e ∈ es, e.Shallow n) :
    EndAlike (fun vs => ∀ v ∈ vs, v.ClosureFree) (each ev env es) (each ev' env es) := by
  induction es with
  | nil => exact endAlike_pure fun _ hv => absurd hv List.not_mem_nil
  | cons e es ih =>
    obtain ⟨he, hes⟩ := List.forall_mem_cons.mp hes
    exact (hev.alike env he).bind fun v hv => (ih hes).bind fun vs hvs =>
      endAlike_pure (List.forall_mem_cons.mpr ⟨hv, hvs⟩)

theorem endAlike_bindPairs (env inner : FrameId) {ps : List (String × Datum)}
    (hps : ∀ p ∈ ps, p.2.Shallow n) :
    EndAlike (fun _ => True) (bindPairs ev env inner ps) (bindPairs ev' env inner ps) := by
  induction ps with
  | nil => exact endAlike_pure trivial
  | cons p ps ih =>
    obtain ⟨hp, hps⟩ := List.forall_mem_cons.mp hps
    exact (hev.alike env hp).bind fun v hv =>
      (endAlike_assign inner p.1 hv).bind fun _ _ => ih hps

theorem endAlike_reaches (op : Operator) (stop : Bool) (env : FrameId) {es : List Datum}
    (hes : ∀ e ∈ es, e.Shallow n) :
    EndAlike (fun _ => True) (reaches op stop ev env es) (reaches op stop ev' env es) := by
  induction es with
  | nil => exact endAlike_pure trivial
  | cons e es ih =>
    obtain ⟨he, hes⟩ := List.forall_mem_cons.mp hes
    refine (hev.alike env he).bind fun v _ => (endAlike_boolean op v).bind fun b _ => ?_
    split
    · exact endAlike_pure trivial
    · exact ih hes

theorem endAlike_bindName (form : Keyword) (env : FrameId) {parts : List Datum}
    (hparts : ∀ d ∈ parts, d.Shallow n) :
    EndAlike Datum.ClosureFree (bindName ev form parts env) (bindName ev' form parts env) := by
  unfold bindName
  split
  · next name expr =>
    have hexpr : expr.Shallow n := hparts _ (List.mem_cons_of_mem _ List.mem_cons_self)
    split
    · next x _ =>
      exact (endAlike_declare env x).bind fun _ _ => (hev.alike env hexpr).bind fun v hv =>
        (endAlike_assign env x hv).bind fun _ _ => endAlike_pure trivial
    · exact endAlike_failWith _ _
  · exact endAlike_fail _

theorem endAlike_branch (env : FrameId) {parts : List Datum} (hparts : ∀ d ∈ parts, d.Shallow n) :
    EndAlike Datum.ClosureFree (branch ev parts env) (branch ev' parts env) := by
  unfold branch
  split
  · next test yes =>
    simp only [List.forall_mem_cons] at hparts
    obtain ⟨htest, hyes, -⟩ := hparts
    refine (hev.alike env htest).bind fun v _ => ?_
    split
    · exact hev.alike env hyes
    · exact endAlike_pure trivial
  · next test yes no =>
    simp only [List.forall_mem_cons] at hparts
    obtain ⟨htest, hyes, hno, -⟩ := hparts
    refine (hev.alike env htest).bind fun v _ => ?_
    split
    · exact hev.alike env hyes
    · exact hev.alike env hno
  · exact endAlike_fail _

theorem endAlike_bindTogether (env : FrameId) {parts : List Datum}
    (hparts : ∀ d ∈ parts, d.Shallow n) :
    EndAlike Datum.ClosureFree (bindTogether ev parts env) (bindTogether ev' parts env) :=
  (endAlike_splitLet _ hparts).bind fun _ hsplit => (endAlike_child env).bind fun inner _ =>
    (endAlike_bindPairs hev env inner hsplit.1).bind fun _ _ => hev.alike inner hsplit.2

theorem endAlike_bindInTurn (env : FrameId) {parts : List Datum}
    (hparts : ∀ d ∈ parts, d.Shallow n) :
    EndAlike Datum.ClosureFree (bindInTurn ev parts env) (bindInTurn ev' parts env) :=
  (endAlike_splitLet _ hparts).bind fun _ hsplit => (endAlike_child env).bind fun inner _ =>
    (endAlike_bindPairs hev inner inner hsplit.1).bind fun _ _ => hev.alike inner hsplit.2

theorem endAlike_bindRecursively (env : FrameId) {parts : List Datum}
    (hparts : ∀ d ∈ parts, d.Shallow n) :
    EndAlike Datum.ClosureFree (bindRecursively ev parts env) (bindRecursively ev' parts env) :=
  (endAlike_splitLet _ hparts).bind fun split hsplit => (endAlike_child env).bind fun inner _ =>
    (endAlike_declareAll inner split.1).bind fun _ _ =>
      (endAlike_bindPairs hev inner inner hsplit.1).bind fun _ _ => hev.alike inner hsplit.2

theorem endAlike_prepend (env : FrameId) {parts : List Datum} (hparts : ∀ d ∈ parts, d.Shallow n) :
    EndAlike Datum.ClosureFree (prepend ev parts env) (prepend ev' parts env) := by
  unfold prepend
  split
  · next item tail =>
    simp only [List.forall_mem_cons] at hparts
    obtain ⟨hitem, htail, -⟩ := hparts
    refine (hev.alike env hitem).bind fun v hv => (hev.alike env htail).bind fun w hw => ?_
    split
    · next vs hvs =>
      refine endAlike_pure ((Datum.closureFree_list _).mpr ?_)
      exact List.forall_mem_cons.mpr ⟨hv, closureFree_of_items? hw hvs⟩
    · exact endAlike_failWith _ _
  · exact endAlike_fail _

/-- Only `lambda` makes procedures. -/
theorem endAlike_special {form : Keyword} (hform : form ≠ .lambda) (env : FrameId)
    {parts : List Datum} (hparts : ∀ d ∈ parts, d.Shallow n) :
    EndAlike Datum.ClosureFree (special ev form parts env) (special ev' form parts env) := by
  cases form with
  | quote =>
    unfold special
    dsimp only
    split
    · exact endAlike_pure (hparts _ List.mem_cons_self).firstOrder.closureFree
    · exact endAlike_fail _
  | define => exact endAlike_bindName hev _ env hparts
  | assign => exact endAlike_bindName hev _ env hparts
  | lambda => exact absurd rfl hform
  | ifThen => exact endAlike_branch hev env hparts
  | letPlain => exact endAlike_bindTogether hev env hparts
  | letSeq => exact endAlike_bindInTurn hev env hparts
  | letRec => exact endAlike_bindRecursively hev env hparts
  | car =>
    unfold special
    dsimp only
    split
    · exact (hev.alike env (hparts _ List.mem_cons_self)).bind fun v hv =>
        (endAlike_uncons .car hv).bind fun _ hsplit => endAlike_pure hsplit.1
    · exact endAlike_fail _
  | cdr =>
    unfold special
    dsimp only
    split
    · exact (hev.alike env (hparts _ List.mem_cons_self)).bind fun v hv =>
        (endAlike_uncons .cdr hv).bind fun _ hsplit =>
          endAlike_pure ((Datum.closureFree_list _).mpr hsplit.2)
    · exact endAlike_fail _
  | cons => exact endAlike_prepend hev env hparts

theorem endAlike_operands (op : Operator) (env : FrameId) {operands : List Datum}
    (hoperands : ∀ e ∈ operands, e.Shallow n) {f : List Number → Eval Datum}
    (hf : ∀ ns, EndAlike Datum.ClosureFree (f ns) (f ns)) :
    EndAlike Datum.ClosureFree (do f (← numbers op (← each ev env operands)))
      (do f (← numbers op (← each ev' env operands))) :=
  (endAlike_each hev env hoperands).bind fun vs _ => (endAlike_numbers op vs).bind fun ns _ => hf ns

theorem endAlike_operate (op : Operator) (env : FrameId) {operands : List Datum}
    (hoperands : ∀ e ∈ operands, e.Shallow n) :
    EndAlike Datum.ClosureFree (operate ev op operands env) (operate ev' op operands env) := by
  cases op with
  | plus => exact endAlike_operands hev _ env hoperands fun _ => endAlike_arithmetic _ _
  | times => exact endAlike_operands hev _ env hoperands fun _ => endAlike_arithmetic _ _
  | minus | divide =>
    refine endAlike_operands hev _ env hoperands fun ns => ?_
    cases ns with
    | nil => exact endAlike_fail _
    | cons first rest => exact endAlike_arithmetic _ _
  | equal | less | atMost | greater | atLeast =>
    exact endAlike_operands hev _ env hoperands fun _ => endAlike_pure trivial
  | and =>
    exact (endAlike_reaches hev _ false env hoperands).bind fun _ _ => endAlike_pure trivial
  | or => exact (endAlike_reaches hev _ true env hoperands).bind fun _ _ => endAlike_pure trivial
  | not =>
    unfold operate
    dsimp only
    split
    · exact (hev.alike env (hoperands _ List.mem_cons_self)).bind fun v _ =>
        (endAlike_boolean .not v).bind fun _ _ => endAlike_pure trivial
    · exact endAlike_fail _

end Forms

/-! ## Evaluation -/

/-- Evaluation with `call` in the place of procedure calls. It is given the evaluator for
bodies, the procedure's parameters, body and frame, and the arguments. -/
def evalCalling (call : Evaluator → List Datum → Datum → FrameId → List Datum → Eval Datum) :
    (fuel : Nat) → Evaluator
  | 0, _, _ => throw .tooDeep
  | fuel + 1, expr, env =>
    match expr with
    | .list (.keyword form :: parts) => special (evalCalling call fuel) form parts env
    | .list (.operator op :: operands) => operate (evalCalling call fuel) op operands env
    | .list (head :: operands) => do
      match ← evalCalling call fuel head env with
      | .closure formals body frame =>
        let args ← each (evalCalling call fuel) env operands
        call (evalCalling call fuel) formals body frame args
      | v => fail (.notApplicable (← text v.render))
    | _ => eval 1 expr env

/-- Procedure calls in their own place are evaluation as it is. -/
theorem evalCalling_apply (fuel : Nat) : evalCalling apply fuel = eval fuel := by
  induction fuel with
  | zero => rfl
  | succ fuel ih =>
    funext e env
    cases e with
    | list items =>
      cases items with
      | nil => rfl
      | cons head parts =>
        cases head with
        | _ =>
          simp only [evalCalling, ih]
          rfl
    | _ => rfl

variable {call : Evaluator → List Datum → Datum → FrameId → List Datum → Eval Datum}

/-- Depth `n` is enough for expressions that nest at most `n` deep, and what takes the place
of procedure calls does not matter. -/
theorem endsOn_eval {n fuel : Nat} (hfuel : n ≤ fuel) :
    EndsOn n (eval n) (evalCalling call fuel) := by
  induction n generalizing fuel with
  | zero =>
    refine ⟨fun {e} _ he => ?_⟩
    exact absurd he.depth_le (Nat.not_le.mpr e.depth_pos)
  | succ n ih =>
    obtain ⟨fuel, rfl⟩ : ∃ k, fuel = k + 1 := Nat.exists_eq_succ_of_ne_zero (by omega)
    have hev : EndsOn n (eval n) (evalCalling call fuel) := ih (Nat.le_of_succ_le_succ hfuel)
    refine ⟨fun {e} env he => ?_⟩
    cases e with
    | number x => exact endAlike_pure trivial
    | bool b => exact endAlike_pure trivial
    | str t => exact endAlike_pure trivial
    | closure formals body frame =>
      exact absurd he.firstOrder.closureFree (Datum.not_closureFree_closure formals body frame)
    | symbol x => exact endAlike_lookup env x
    | list items =>
      cases items with
      | nil => exact endAlike_pure trivial
      | cons head parts =>
        have hhead : head.Shallow n := he.item List.mem_cons_self
        have hparts : ∀ d ∈ parts, d.Shallow n := fun d hd => he.item (List.mem_cons_of_mem _ hd)
        cases head with
        | keyword form =>
          have hform : form ≠ .lambda := by
            rintro rfl
            exact (hhead.firstOrder _ List.mem_cons_self).1 rfl
          exact endAlike_special hev hform env hparts
        | operator op => exact endAlike_operate hev op env hparts
        | _ =>
          -- the head's value is no procedure
          refine (hev.alike env hhead).bind fun v hv => ?_
          cases v with
          | closure formals body frame =>
            exact absurd hv (Datum.not_closureFree_closure formals body frame)
          | _ => exact endAlike_failWith _ _
    | _ => exact endAlike_failWith _ _

end Eval

/-- **Without procedures, evaluation ends.** Take an expression in which neither `lambda` nor
a procedure occurs, and a heap that binds no name to a procedure or to data with one inside.
Evaluation comes to an end, with a value or a fault, and the depth of the expression is depth
enough for it: it ends in the same way wherever it may nest that deep. No procedure is called:
whatever takes the place of calls, the run is the same, and nothing is recorded. There is no
procedure in the value or in the heap afterwards. -/
theorem eval_ends_without_procedures (e : Datum) (env : FrameId) (m : Machine)
    (he : e.FirstOrder) (hm : m.heap.ClosureFree) :
    let run := (eval e.depth e env).exec m
    ((∃ v, run.1 = .ok v ∧ v.ClosureFree) ∨ ∃ f, run.1 = .error (.fault f)) ∧
      (∀ fuel ≥ e.depth, (eval fuel e env).exec m = run) ∧
      (∀ call, ∀ fuel ≥ e.depth, (Eval.evalCalling call fuel e env).exec m = run) ∧
      run.2.trace = m.trace ∧
      run.2.heap.ClosureFree := by
  intro run
  have hends : ∀ call, ∀ fuel ≥ e.depth,
      (Eval.evalCalling call fuel e env).exec m = run ∧ Eval.Ended Datum.ClosureFree m run :=
    fun call fuel hfuel => (Eval.endsOn_eval hfuel).alike env ⟨he, Nat.le_refl _⟩ m hm
  obtain ⟨-, hrun⟩ := hends Eval.apply e.depth (Nat.le_refl _)
  refine ⟨?_, ?_, fun call fuel hfuel => (hends call fuel hfuel).1, hrun.trace, hrun.heap⟩
  · rcases hout : run.1 with halt | v
    · cases halt with
      | tooDeep => exact absurd hout hrun.ends
      | fault f => exact .inr ⟨f, rfl⟩
    · exact .inl ⟨v, rfl, hrun.ok v hout⟩
  · intro fuel hfuel
    rw [← Eval.evalCalling_apply fuel]
    exact (hends Eval.apply fuel hfuel).1

/-- Taking apart a `lambda` expression that a name stands for, and putting it together again:
the value is the expression, not a procedure. It is the same if every call is refused. -/
theorem eval_ends_without_procedures_rebuilt_code :
    let code : Datum := .list [.keyword .lambda, .list [.symbol "x"],
      .list [.symbol "x", .symbol "x"]]
    let m : Machine := { heap := Heap.initial.update 0 (·.assign "code" code) }
    let rebuilt : Datum := .list [.keyword .cons, .list [.keyword .car, .symbol "code"],
      .list [.keyword .cdr, .symbol "code"]]
    let e : Datum := .list [.keyword .letPlain, .list [.list [.symbol "y", rebuilt]], .symbol "y"]
    (e.FirstOrder ∧ m.heap.ClosureFree ∧ e.depth = 6) ∧
      ((eval 6 e 0).exec m).2.heap.ClosureFree ∧
      (∀ fuel ≥ 6, ((eval fuel e 0).exec m).1 = .ok code) ∧
      ∀ fuel ≥ 6, ((Eval.evalCalling (fun _ _ _ _ _ => throw .tooDeep) fuel e 0).exec m).1 =
        .ok code := by
  intro code m rebuilt e
  have he : e.FirstOrder := by
    simp [Datum.FirstOrder, Datum.leaves, Datum.leavesEach, e, rebuilt]
  have hcode : code.ClosureFree := by
    simp [Datum.ClosureFree, Datum.EveryClosure, Datum.EveryClosureEach, code]
  have hm : m.heap.ClosureFree := (Heap.holds_initial _).assign hcode
  obtain ⟨-, hfuel, hcall, -, hheap⟩ := eval_ends_without_procedures e 0 m he hm
  have hvalue : ((eval e.depth e 0).exec m).1 = .ok code := rfl
  refine ⟨⟨he, hm, rfl⟩, hheap, ?_, ?_⟩
  · intro fuel hdepth
    rw [hfuel fuel hdepth]
    exact hvalue
  · intro fuel hdepth
    rw [hcall _ fuel hdepth]
    exact hvalue

end SmallScheme
