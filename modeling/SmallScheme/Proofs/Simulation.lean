import Mathlib.Data.List.Nodup
import SmallScheme.Proofs.Datum
import SmallScheme.Proofs.Machine

/-!
# Simulations

Two runs of one program, the second with its symbols and frames renamed, in heaps
that correspond. A `Simulation` says how heaps correspond and which data may occur,
and promises that the four operations on heaps (looking up, introducing, binding,
making a frame) keep the correspondence. Everything else about evaluation follows
once and for all: each form of the language turns corresponding machines into
corresponding ones, with corresponding outcomes.

Main statement: `Simulation.agree_eval`.
-/

namespace SmallScheme

/-- Errors of one kind, and the same unless symbols are renamed. -/
def Error.Alike (r : Renaming) (e e' : Error) : Prop :=
  e.kind = e'.kind ∧ Datum.SameUnder r e e'

/-- The same reason to stop. -/
inductive Halt.Alike (r : Renaming) : Halt → Halt → Prop
  | tooDeep : Alike r .tooDeep .tooDeep
  | oversized {o : Oversized} : o.IsWritten →
    Alike r (.fault (.oversized o)) (.fault (.oversized o))
  | error {e e' : Error} : e.Alike r e' → Alike r (.fault (.error e)) (.fault (.error e'))

theorem Error.Alike.rfl {r : Renaming} {e : Error} : e.Alike r e :=
  ⟨Eq.refl _, .rfl⟩

/-- A correspondence between heaps under a renaming. `ok n d` and `live n i` say which data
and which frames may occur when there are `n` frames. -/
structure Simulation where
  map : Renaming
  rel : Heap → Heap → Prop
  ok : Nat → Datum → Prop
  live : Nat → FrameId → Prop
  name_injective : Function.Injective map.name
  ok_mono : ∀ {n n' d}, n ≤ n' → ok n d → ok n' d
  live_mono : ∀ {n n' i}, n ≤ n' → live n i → live n' i
  ok_number : ∀ n x, ok n (.number x)
  ok_bool : ∀ n b, ok n (.bool b)
  ok_nil : ∀ n, ok n .nil
  ok_list : ∀ {n ds}, ok n (.list ds) ↔ ∀ d ∈ ds, ok n d
  /-- A procedure with distinct parameters may be made in a frame in use. -/
  ok_closure : ∀ {n body i} (names : List String), names.Nodup → ok n body → live n i →
    ok n (.closure (names.map .symbol) body i)
  /-- What is needed to call a procedure. -/
  ok_call : ∀ {n formals body i}, ok n (.closure formals body i) → ok n body ∧ live n i
  lookup : ∀ {h h' i} (x : String), rel h h' → live h.size i →
    Paired (Error.Alike map) (fun v v' => ok h.size v ∧ v' = v.rename map)
      (h.lookup i x) (h'.lookup (map.frame i) (map.name x))
  declare : ∀ {h h' i} (x : String), rel h h' → live h.size i →
    rel (h.update i (·.declare x)) (h'.update (map.frame i) (·.declare (map.name x)))
  assign : ∀ {h h' i v} (x : String), rel h h' → live h.size i → ok h.size v →
    rel (h.update i (·.assign x v))
      (h'.update (map.frame i) (·.assign (map.name x) (v.rename map)))
  child : ∀ {h h' i}, rel h h' → live h.size i →
    live (h.size + 1) h.size ∧ h'.size = map.frame h.size ∧
      rel (h.push { outer := some i }) (h'.push { outer := some (map.frame i) })

namespace Simulation

/-- A simulation in which every datum may occur, in any frame. -/
def everywhere (map : Renaming) (rel : Heap → Heap → Prop)
    (name_injective : Function.Injective map.name)
    (lookup : ∀ {h h' i} (x : String), rel h h' →
      Paired (Error.Alike map) (fun v v' => v' = v.rename map)
        (h.lookup i x) (h'.lookup (map.frame i) (map.name x)))
    (declare : ∀ {h h' i} (x : String), rel h h' →
      rel (h.update i (·.declare x)) (h'.update (map.frame i) (·.declare (map.name x))))
    (assign : ∀ {h h' i} (x : String) (v : Datum), rel h h' →
      rel (h.update i (·.assign x v))
        (h'.update (map.frame i) (·.assign (map.name x) (v.rename map))))
    (child : ∀ {h h' i}, rel h h' → h'.size = map.frame h.size ∧
      rel (h.push { outer := some i }) (h'.push { outer := some (map.frame i) })) :
    Simulation where
  map := map
  rel := rel
  ok _ _ := True
  live _ _ := True
  name_injective := name_injective
  ok_mono _ _ := trivial
  live_mono _ _ := trivial
  ok_number _ _ := trivial
  ok_bool _ _ := trivial
  ok_nil _ := trivial
  ok_list := ⟨fun _ _ _ => trivial, fun _ => trivial⟩
  ok_closure _ _ _ _ := trivial
  ok_call _ := ⟨trivial, trivial⟩
  lookup x hrel _ := (lookup x hrel).imp fun _ _ hv => ⟨trivial, hv⟩
  declare x hrel _ := declare x hrel
  assign x hrel _ _ := assign x _ hrel
  child hrel _ := ⟨trivial, child hrel⟩

variable (S : Simulation) {α α' β β' : Type} {n : Nat}

/-- The renamed datum. -/
abbrev datum (d : Datum) : Datum := d.rename S.map

/-- The renamed frame. -/
abbrev frame (i : FrameId) : FrameId := S.map.frame i

/-- The renamed name. -/
abbrev name (x : String) : String := S.map.name x

/-! ## Corresponding results -/

/-- A value that may occur, and its renaming. -/
structure Value (n : Nat) (v v' : Datum) : Prop where
  ok : S.ok n v
  eq : v' = S.datum v

/-- What two runs from corresponding machines reach: corresponding machines again, with at
least as many frames as before, and corresponding outcomes. -/
structure Reached (post : Nat → α → α' → Prop) (m : Machine) (r : Except Halt α × Machine)
    (r' : Except Halt α' × Machine) : Prop where
  size_le : m.heap.size ≤ r.2.heap.size
  rel : S.rel r.2.heap r'.2.heap
  outcome : Paired (Halt.Alike S.map) (post r.2.heap.size) r.1 r'.1

/-- Two computations take corresponding machines with `n` frames or more to corresponding
machines, with outcomes that correspond by `post`. -/
def Agree (n : Nat) (post : Nat → α → α' → Prop) (c : Eval α) (c' : Eval α') : Prop :=
  ∀ m m' : Machine, S.rel m.heap m'.heap → n ≤ m.heap.size →
    S.Reached post m (c.exec m) (c'.exec m')

variable {S}

/-- Sequences of computations that agree agree. The second parts may rely on what the first
ones return, and on the frames made by then. -/
theorem Agree.bind {post : Nat → α → α' → Prop} {post' : Nat → β → β' → Prop} {c : Eval α}
    {c' : Eval α'} {f : α → Eval β} {f' : α' → Eval β'} (hc : S.Agree n post c c')
    (hf : ∀ k a a', n ≤ k → post k a a' → S.Agree k post' (f a) (f' a')) :
    S.Agree n post' (c >>= f) (c' >>= f') := by
  intro m m' hrel hm
  obtain ⟨hsize, hrel₁, hout⟩ := hc m m' hrel hm
  rw [Eval.exec_bind, Eval.exec_bind]
  rcases hrun : c.exec m with ⟨o, m₁⟩
  rcases hrun' : c'.exec m' with ⟨o', m₁'⟩
  rw [hrun] at hsize hrel₁ hout
  rw [hrun'] at hrel₁ hout
  cases hout with
  | error halike => exact ⟨hsize, hrel₁, .error halike⟩
  | ok hpost =>
    -- the second parts start from the frames there are by now, not from `n`
    obtain ⟨hsize₂, hrel₂, hout₂⟩ :=
      hf m₁.heap.size _ _ (Nat.le_trans hm hsize) hpost m₁ m₁' hrel₁ (Nat.le_refl _)
    exact ⟨Nat.le_trans hsize hsize₂, hrel₂, hout₂⟩

/-! ## Primitives -/

theorem agree_pure {post : Nat → α → α' → Prop} {a : α} {a' : α'}
    (h : ∀ k, n ≤ k → post k a a') : S.Agree n post (pure a) (pure a') :=
  fun _ _ hrel hm => ⟨Nat.le_refl _, hrel, .ok (h _ hm)⟩

/-- Returning a value that may occur. -/
theorem agree_value {v : Datum} (hv : S.ok n v) : S.Agree n S.Value (pure v) (pure (S.datum v)) :=
  agree_pure fun _ hk => ⟨S.ok_mono hk hv, rfl⟩

theorem agree_throw {post : Nat → α → α' → Prop} {halt halt' : Halt}
    (h : halt.Alike S.map halt') :
    S.Agree n post (throw halt : Eval α) (throw halt' : Eval α') :=
  fun _ _ hrel _ => ⟨Nat.le_refl _, hrel, .error h⟩

theorem agree_fail {post : Nat → α → α' → Prop} (e : Error) :
    S.Agree n post (Eval.fail e : Eval α) (Eval.fail e : Eval α') :=
  agree_throw (.error .rfl)

/-- Stopping with errors that quote the texts of a datum and of its renaming. -/
theorem agree_failWith {post : Nat → α → α' → Prop} {e : String → Error}
    {t t' : Except Oversized String} (ht : Datum.SameText S.map t t')
    (hkind : ∀ s s', (e s).kind = (e s').kind := by intros; rfl) :
    S.Agree n post (do Eval.fail (e (← Eval.text t)) : Eval α)
      (do Eval.fail (e (← Eval.text t')) : Eval α') := by
  cases ht with
  | ok hsame => exact agree_throw (.error ⟨hkind _ _, hsame.map e⟩)
  | error ho =>
    obtain ⟨rfl, hwritten⟩ := ho
    exact agree_throw (.oversized hwritten)

theorem agree_record (e e' : Event) :
    S.Agree n (fun _ _ _ => True) (Eval.record e) (Eval.record e') :=
  fun _ _ hrel _ => ⟨Nat.le_refl _, hrel, .ok trivial⟩

theorem agree_lookup {env : FrameId} (henv : S.live n env) (x : String) :
    S.Agree n S.Value (Eval.lookup env x) (Eval.lookup (S.frame env) (S.name x)) := by
  intro m m' hrel hm
  rw [Eval.exec_lookup, Eval.exec_lookup]
  have hfound := S.lookup x hrel (S.live_mono hm henv)
  revert hfound
  rcases m.heap.lookup env x with e | v <;>
    rcases m'.heap.lookup (S.frame env) (S.name x) with e' | v' <;>
    intro hfound <;> cases hfound
  · rename_i halike
    exact ⟨Nat.le_refl _, hrel, .error (.error halike)⟩
  · rename_i hv
    exact ⟨Nat.le_refl _, hrel, .ok ⟨hv.1, hv.2⟩⟩

theorem agree_declare {env : FrameId} (henv : S.live n env) (x : String) :
    S.Agree n (fun _ _ _ => True) (Eval.declare env x) (Eval.declare (S.frame env) (S.name x)) := by
  intro m m' hrel hm
  rw [Eval.exec_declare, Eval.exec_declare]
  refine ⟨?_, S.declare x hrel (S.live_mono hm henv), .ok trivial⟩
  exact Nat.le_of_eq (Heap.size_update _ _ _).symm

theorem agree_assign {env : FrameId} (henv : S.live n env) (x : String) {v : Datum}
    (hv : S.ok n v) :
    S.Agree n (fun _ _ _ => True) (Eval.assign env x v)
      (Eval.assign (S.frame env) (S.name x) (S.datum v)) := by
  intro m m' hrel hm
  rw [Eval.exec_assign, Eval.exec_assign]
  refine ⟨?_, S.assign x hrel (S.live_mono hm henv) (S.ok_mono hm hv), .ok trivial⟩
  exact Nat.le_of_eq (Heap.size_update _ _ _).symm

/-- A new frame is in use from then on. -/
theorem agree_child {env : FrameId} (henv : S.live n env) :
    S.Agree n (fun k i i' => S.live k i ∧ i' = S.frame i) (Eval.child env)
      (Eval.child (S.frame env)) := by
  intro m m' hrel hm
  obtain ⟨hlive, hnew, hrel'⟩ := S.child hrel (S.live_mono hm henv)
  rw [Eval.exec_child, Eval.exec_child]
  refine ⟨?_, hrel', .ok ⟨?_, hnew⟩⟩
  · show m.heap.size ≤ (m.heap.push _).size
    rw [Heap.size_push]
    exact Nat.le_succ _
  · show S.live (m.heap.push _).size m.heap.size
    rw [Heap.size_push]
    exact hlive

/-! ## Data that the forms take apart -/

theorem agree_parameters (ps : List Datum) :
    S.Agree n (fun _ names names' => names' = names.map S.name ∧ ps = names.map .symbol)
      (Eval.parameters ps) (Eval.parameters (ps.map S.datum)) := by
  induction ps with
  | nil => exact agree_pure fun _ _ => ⟨rfl, rfl⟩
  | cons p ps ih =>
    rw [List.map_cons, Eval.parameters, Eval.parameters, Datum.symbol?_rename]
    cases hp : p.symbol? with
    | none => exact agree_failWith (Datum.describe_rename S.map p)
    | some x =>
      have hpx : p = .symbol x := by cases p <;> simp_all [Datum.symbol?]
      subst hpx
      refine ih.bind fun k names names' _ hnames => agree_pure fun _ _ => ?_
      rw [hnames.1, hnames.2]
      exact ⟨rfl, rfl⟩

theorem pair?_rename (r : Renaming) (d : Datum) :
    Eval.pair? (d.rename r) = (Eval.pair? d).map fun p => (r.name p.1, p.2.rename r) := by
  cases d with
  | list items =>
    rw [Datum.rename_list]
    match items with
    | [] => rfl
    | [head] => cases head <;> rfl
    | [head, _] => cases head <;> rfl
    | head :: _ :: _ :: _ => cases head <;> rfl
  | _ => rfl

theorem ok_of_pair? {d : Datum} {p : String × Datum} (hd : S.ok n d) (hp : Eval.pair? d = some p) :
    S.ok n p.2 := by
  unfold Eval.pair? at hp
  split at hp
  · cases hp
    exact S.ok_list.mp hd _ (by simp)
  · cases hp

/-- Names with expressions that may occur, and their renamings. -/
structure Pairs (S : Simulation) (n : Nat) (ps ps' : List (String × Datum)) : Prop where
  ok : ∀ p ∈ ps, S.ok n p.2
  eq : ps' = ps.map fun p => (S.name p.1, S.datum p.2)

theorem agree_pairs (form : Keyword) {ds : List Datum} (hds : ∀ d ∈ ds, S.ok n d) :
    S.Agree n S.Pairs (Eval.pairs form ds) (Eval.pairs form (ds.map S.datum)) := by
  induction ds with
  | nil => exact agree_pure fun _ _ => ⟨by simp, rfl⟩
  | cons d ds ih =>
    rw [List.forall_mem_cons] at hds
    rw [List.map_cons, Eval.pairs, Eval.pairs, pair?_rename]
    cases hp : Eval.pair? d with
    | none => exact agree_failWith (Datum.describe_rename S.map d)
    | some p =>
      refine (ih hds.2).bind fun k ps ps' hk hps => agree_pure fun k' hk' => ?_
      rw [hps.eq]
      refine ⟨?_, rfl⟩
      rw [List.forall_mem_cons]
      have hp2 : S.ok k' p.2 := S.ok_mono (Nat.le_trans hk hk') (ok_of_pair? hds.1 hp)
      exact ⟨hp2, fun q hq => S.ok_mono hk' (hps.1 q hq)⟩

theorem ok_of_items? {d : Datum} {items : List Datum} (hd : S.ok n d)
    (hitems : d.items? = some items) : ∀ e ∈ items, S.ok n e := by
  cases d with
  | list ds =>
    cases hitems
    exact S.ok_list.mp hd
  | _ => cases hitems

theorem agree_splitLet (form : Keyword) {parts : List Datum} (hparts : ∀ d ∈ parts, S.ok n d) :
    S.Agree n (fun k p p' => S.Pairs k p.1 p'.1 ∧ S.Value k p.2 p'.2)
      (Eval.splitLet form parts) (Eval.splitLet form (parts.map S.datum)) := by
  match parts, hparts with
  | [], _ => exact agree_fail _
  | [_], _ => exact agree_fail _
  | [bindings, body], hparts =>
    have hbindings : S.ok n bindings := hparts bindings (by simp)
    have hbody : S.ok n body := hparts body (by simp)
    show S.Agree n _ (Eval.splitLet form [bindings, body])
      (Eval.splitLet form [S.datum bindings, S.datum body])
    rw [Eval.splitLet, Eval.splitLet, Datum.items?_rename]
    cases hitems : bindings.items? with
    | none => exact agree_failWith (Datum.describe_rename S.map bindings)
    | some ds =>
      refine (agree_pairs form (ok_of_items? hbindings hitems)).bind fun k ps ps' hk hps => ?_
      refine agree_pure fun k' hk' => ⟨⟨fun q hq => S.ok_mono hk' (hps.1 q hq), hps.eq⟩, ?_, rfl⟩
      exact S.ok_mono (Nat.le_trans hk hk') hbody
  | _ :: _ :: _ :: _, _ => exact agree_fail _

/-- Values that may occur, and their renamings. -/
structure Values (S : Simulation) (n : Nat) (vs vs' : List Datum) : Prop where
  ok : ∀ v ∈ vs, S.ok n v
  eq : vs' = vs.map S.datum

theorem agree_uncons (form : Keyword) {v : Datum} (hv : S.ok n v) :
    S.Agree n (fun k p p' => S.Value k p.1 p'.1 ∧ S.Values k p.2 p'.2) (Eval.uncons form v)
      (Eval.uncons form (S.datum v)) := by
  unfold Eval.uncons
  rw [Datum.items?_rename]
  cases hitems : v.items? with
  | none => exact agree_failWith (Datum.render_rename S.map v)
  | some items =>
    have hok := ok_of_items? hv hitems
    cases items with
    | nil => exact agree_fail _
    | cons first rest =>
      rw [List.forall_mem_cons] at hok
      refine agree_pure fun k hk => ⟨⟨S.ok_mono hk hok.1, rfl⟩, ?_, rfl⟩
      exact fun w hw => S.ok_mono hk (hok.2 w hw)

theorem agree_numbers (op : Operator) (vs : List Datum) :
    S.Agree n (fun _ ns ns' => ns' = ns) (Eval.numbers op vs)
      (Eval.numbers op (vs.map S.datum)) := by
  induction vs with
  | nil => exact agree_pure fun _ _ => rfl
  | cons v vs ih =>
    rw [List.map_cons, Eval.numbers, Eval.numbers, Datum.number?_rename]
    cases v.number? with
    | none => exact agree_failWith (Datum.render_rename S.map v)
    | some x =>
      refine ih.bind fun _ ns ns' _ hns => agree_pure fun _ _ => ?_
      rw [hns]

theorem agree_boolean (op : Operator) (v : Datum) :
    S.Agree n (fun _ b b' => b' = b) (Eval.boolean op v) (Eval.boolean op (S.datum v)) := by
  unfold Eval.boolean
  rw [Datum.bool?_rename]
  cases v.bool? with
  | none => exact agree_failWith (Datum.render_rename S.map v)
  | some b => exact agree_pure fun _ _ => rfl

theorem agree_arithmetic (op : Operator) (r : Except ArithmeticFault Number) :
    S.Agree n S.Value (Eval.arithmetic op r) (Eval.arithmetic op r) := by
  unfold Eval.arithmetic
  split
  · exact agree_value (S.ok_number n _)
  · exact agree_fail _
  · exact agree_fail _

/-- Both heads of a `lambda` name distinct parameters, or neither does. -/
theorem agree_makeClosure {parts : List Datum} (hparts : ∀ d ∈ parts, S.ok n d) {env : FrameId}
    (henv : S.live n env) :
    S.Agree n S.Value (Eval.makeClosure parts env)
      (Eval.makeClosure (parts.map S.datum) (S.frame env)) := by
  match parts, hparts with
  | [], _ => exact agree_fail _
  | [_], _ => exact agree_fail _
  | [formals, body], hparts =>
    have hbody : S.ok n body := hparts body (by simp)
    show S.Agree n _ (Eval.makeClosure [formals, body] env)
      (Eval.makeClosure [S.datum formals, S.datum body] (S.frame env))
    rw [Eval.makeClosure, Eval.makeClosure, Datum.items?_rename]
    cases formals.items? with
    | none => exact agree_failWith (Datum.describe_rename S.map formals)
    | some ps =>
      refine (agree_parameters ps).bind fun k names names' hk hnames => ?_
      rw [hnames.1]
      have hiff : (names.map S.name).Nodup ↔ names.Nodup :=
        List.nodup_map_iff S.name_injective
      by_cases hnodup : names.Nodup
      · rw [if_pos hnodup, if_pos (hiff.mpr hnodup)]
        refine (agree_record _ _).bind fun k' _ _ hk' _ => ?_
        have hok := S.ok_closure names hnodup (S.ok_mono hk hbody) (S.live_mono hk henv)
        rw [hnames.2]
        have hvalue := agree_value (S.ok_mono hk' hok)
        rwa [datum, Datum.rename_closure] at hvalue
      · rw [if_neg hnodup, if_neg (fun h => hnodup (hiff.mp h))]
        exact agree_fail _
  | _ :: _ :: _ :: _, _ => exact agree_fail _

theorem agree_bindArguments {env : FrameId} (henv : S.live n env) (ps : List Datum)
    {vs : List Datum} (hvs : ∀ v ∈ vs, S.ok n v) :
    S.Agree n (fun _ _ _ => True) (Eval.bindArguments env ps vs)
      (Eval.bindArguments (S.frame env) (ps.map S.datum) (vs.map S.datum)) := by
  induction ps generalizing vs n with
  | nil => exact agree_pure fun _ _ => trivial
  | cons p ps ih =>
    cases vs with
    | nil => exact agree_pure fun _ _ => trivial
    | cons v vs =>
      rw [List.forall_mem_cons] at hvs
      rw [List.map_cons, List.map_cons, Eval.bindArguments, Eval.bindArguments,
        Datum.symbol?_rename]
      cases p.symbol? with
      | none => exact agree_failWith (Datum.describe_rename S.map p)
      | some x =>
        refine (agree_assign henv x hvs.1).bind fun k _ _ hk _ => ?_
        exact ih (S.live_mono hk henv) fun w hw => S.ok_mono hk (hvs.2 w hw)

theorem agree_declareAll {env : FrameId} (henv : S.live n env) (ps : List (String × Datum)) :
    S.Agree n (fun _ _ _ => True) (Eval.declareAll env ps)
      (Eval.declareAll (S.frame env) (ps.map fun p => (S.name p.1, S.datum p.2))) := by
  induction ps generalizing n with
  | nil => exact agree_pure fun _ _ => trivial
  | cons p ps ih =>
    exact (agree_declare henv p.1).bind fun k _ _ hk _ => ih (S.live_mono hk henv)

/-! ## The forms

Evaluators that agree on data that may occur, in frames in use, make every form agree. -/

/-- Two evaluators agree, the second on renamed data in renamed frames. -/
structure Evaluates (S : Simulation) (ev ev' : Evaluator) : Prop where
  agree : ∀ {n : Nat} {e : Datum} {env : FrameId}, S.ok n e → S.live n env →
    S.Agree n S.Value (ev e env) (ev' (S.datum e) (S.frame env))

section Forms

variable {ev ev' : Evaluator} {env : FrameId} {parts : List Datum}

theorem agree_each (hev : S.Evaluates ev ev') (henv : S.live n env) {es : List Datum}
    (hes : ∀ e ∈ es, S.ok n e) :
    S.Agree n S.Values (Eval.each ev env es)
      (Eval.each ev' (S.frame env) (es.map S.datum)) := by
  induction es generalizing n with
  | nil => exact agree_pure fun _ _ => ⟨by simp, rfl⟩
  | cons e es ih =>
    rw [List.forall_mem_cons] at hes
    refine (hev.agree hes.1 henv).bind fun k v v' hk hv => ?_
    refine (ih (S.live_mono hk henv) fun d hd => S.ok_mono hk (hes.2 d hd)).bind
      fun k' vs vs' hk' hvs => agree_pure fun k'' hk'' => ?_
    rw [hv.eq, hvs.eq]
    refine ⟨?_, rfl⟩
    rw [List.forall_mem_cons]
    exact ⟨S.ok_mono (Nat.le_trans hk' hk'') hv.ok, fun w hw => S.ok_mono hk'' (hvs.1 w hw)⟩

theorem agree_bindPairs (hev : S.Evaluates ev ev') (henv : S.live n env) {inner : FrameId}
    (hinner : S.live n inner) {ps : List (String × Datum)} (hps : ∀ p ∈ ps, S.ok n p.2) :
    S.Agree n (fun _ _ _ => True) (Eval.bindPairs ev env inner ps)
      (Eval.bindPairs ev' (S.frame env) (S.frame inner)
        (ps.map fun p => (S.name p.1, S.datum p.2))) := by
  induction ps generalizing n with
  | nil => exact agree_pure fun _ _ => trivial
  | cons p ps ih =>
    rw [List.forall_mem_cons] at hps
    refine (hev.agree hps.1 henv).bind fun k v v' hk hv => ?_
    rw [hv.eq]
    refine (agree_assign (S.live_mono hk hinner) p.1 hv.ok).bind fun k' _ _ hk' _ => ?_
    have hle := Nat.le_trans hk hk'
    exact ih (S.live_mono hle henv) (S.live_mono hle hinner)
      fun q hq => S.ok_mono hle (hps.2 q hq)

theorem agree_reaches (hev : S.Evaluates ev ev') (henv : S.live n env) (op : Operator)
    (stop : Bool) {es : List Datum} (hes : ∀ e ∈ es, S.ok n e) :
    S.Agree n (fun _ b b' => b' = b) (Eval.reaches op stop ev env es)
      (Eval.reaches op stop ev' (S.frame env) (es.map S.datum)) := by
  induction es generalizing n with
  | nil => exact agree_pure fun _ _ => rfl
  | cons e es ih =>
    rw [List.forall_mem_cons] at hes
    refine (hev.agree hes.1 henv).bind fun k v v' hk hv => ?_
    rw [hv.eq]
    refine (agree_boolean op v).bind fun k' b b' hk' hb => ?_
    rw [hb]
    split
    · exact agree_pure fun _ _ => rfl
    · have hle := Nat.le_trans hk hk'
      exact ih (S.live_mono hle henv) fun d hd => S.ok_mono hle (hes.2 d hd)

theorem agree_bindName (hev : S.Evaluates ev ev') (henv : S.live n env) (form : Keyword)
    (hparts : ∀ d ∈ parts, S.ok n d) :
    S.Agree n S.Value (Eval.bindName ev form parts env)
      (Eval.bindName ev' form (parts.map S.datum) (S.frame env)) := by
  match parts, hparts with
  | [], _ => exact agree_fail _
  | [_], _ => exact agree_fail _
  | [name, expr], hparts =>
    have hexpr : S.ok n expr := hparts expr (by simp)
    show S.Agree n _ (Eval.bindName ev form [name, expr] env)
      (Eval.bindName ev' form [S.datum name, S.datum expr] (S.frame env))
    rw [Eval.bindName, Eval.bindName, Datum.symbol?_rename]
    cases name.symbol? with
    | none => exact agree_failWith (Datum.describe_rename S.map name)
    | some x =>
      refine (agree_declare henv x).bind fun k _ _ hk _ => ?_
      refine (hev.agree (S.ok_mono hk hexpr) (S.live_mono hk henv)).bind fun k' v v' hk' hv => ?_
      rw [hv.eq]
      have hlive : S.live k' env := S.live_mono (Nat.le_trans hk hk') henv
      exact (agree_assign hlive x hv.ok).bind fun k'' _ _ _ _ => agree_value (S.ok_nil k'')
  | _ :: _ :: _ :: _, _ => exact agree_fail _

theorem agree_branch (hev : S.Evaluates ev ev') (henv : S.live n env)
    (hparts : ∀ d ∈ parts, S.ok n d) :
    S.Agree n S.Value (Eval.branch ev parts env)
      (Eval.branch ev' (parts.map S.datum) (S.frame env)) := by
  match parts, hparts with
  | [], _ => exact agree_fail _
  | [_], _ => exact agree_fail _
  | [test, yes], hparts =>
    refine (hev.agree (hparts test (by simp)) henv).bind fun k v v' hk hv => ?_
    rw [hv.eq, Datum.isTruthy_rename]
    split
    · exact hev.agree (S.ok_mono hk (hparts yes (by simp))) (S.live_mono hk henv)
    · exact agree_value (S.ok_nil k)
  | [test, yes, no], hparts =>
    refine (hev.agree (hparts test (by simp)) henv).bind fun k v v' hk hv => ?_
    rw [hv.eq, Datum.isTruthy_rename]
    split
    · exact hev.agree (S.ok_mono hk (hparts yes (by simp))) (S.live_mono hk henv)
    · exact hev.agree (S.ok_mono hk (hparts no (by simp))) (S.live_mono hk henv)
  | _ :: _ :: _ :: _ :: _, _ => exact agree_fail _

/-- Corresponding calls of corresponding procedures. -/
theorem agree_apply (hev : S.Evaluates ev ev') {formals : List Datum} {body : Datum}
    {captured : FrameId} (hclosure : S.ok n (.closure formals body captured))
    {args : List Datum} (hargs : ∀ v ∈ args, S.ok n v) :
    S.Agree n S.Value (Eval.apply ev formals body captured args)
      (Eval.apply ev' (formals.map S.datum) (S.datum body) (S.frame captured)
        (args.map S.datum)) := by
  obtain ⟨hbody, hlive⟩ := S.ok_call hclosure
  unfold Eval.apply
  dsimp only
  rw [List.length_map, List.length_map]
  split
  -- the numbers of the new frames correspond, although they need not be equal
  · refine (agree_child hlive).bind fun k inner inner' hk hinner => ?_
    rw [hinner.2]
    refine (agree_bindArguments hinner.1 formals fun v hv => S.ok_mono hk (hargs v hv)).bind
      fun k' _ _ hk' _ => (agree_record _ _).bind fun k'' _ _ hk'' _ => ?_
    have hle := Nat.le_trans hk' hk''
    exact hev.agree (S.ok_mono (Nat.le_trans hk hle) hbody) (S.live_mono hle hinner.1)
  · have htext := Datum.describe_rename S.map (.closure formals body captured)
    rw [Datum.rename_closure] at htext
    exact agree_failWith htext

theorem agree_bindTogether (hev : S.Evaluates ev ev') (henv : S.live n env)
    (hparts : ∀ d ∈ parts, S.ok n d) :
    S.Agree n S.Value (Eval.bindTogether ev parts env)
      (Eval.bindTogether ev' (parts.map S.datum) (S.frame env)) := by
  refine (agree_splitLet .letPlain hparts).bind fun k p p' hk hp => ?_
  obtain ⟨ps, body⟩ := p
  obtain ⟨ps', body'⟩ := p'
  obtain ⟨⟨hps, rfl⟩, hbody, rfl⟩ := hp
  refine (agree_child (S.live_mono hk henv)).bind fun k' inner inner' hk' hinner => ?_
  rw [hinner.2]
  refine (agree_bindPairs hev (S.live_mono (Nat.le_trans hk hk') henv) hinner.1
    fun p hp => S.ok_mono hk' (hps p hp)).bind fun k'' _ _ hk'' _ => ?_
  exact hev.agree (S.ok_mono (Nat.le_trans hk' hk'') hbody) (S.live_mono hk'' hinner.1)

theorem agree_bindInTurn (hev : S.Evaluates ev ev') (henv : S.live n env)
    (hparts : ∀ d ∈ parts, S.ok n d) :
    S.Agree n S.Value (Eval.bindInTurn ev parts env)
      (Eval.bindInTurn ev' (parts.map S.datum) (S.frame env)) := by
  refine (agree_splitLet .letSeq hparts).bind fun k p p' hk hp => ?_
  obtain ⟨ps, body⟩ := p
  obtain ⟨ps', body'⟩ := p'
  obtain ⟨⟨hps, rfl⟩, hbody, rfl⟩ := hp
  refine (agree_child (S.live_mono hk henv)).bind fun k' inner inner' hk' hinner => ?_
  rw [hinner.2]
  refine (agree_bindPairs hev hinner.1 hinner.1 fun p hp => S.ok_mono hk' (hps p hp)).bind
    fun k'' _ _ hk'' _ => ?_
  exact hev.agree (S.ok_mono (Nat.le_trans hk' hk'') hbody) (S.live_mono hk'' hinner.1)

theorem agree_bindRecursively (hev : S.Evaluates ev ev') (henv : S.live n env)
    (hparts : ∀ d ∈ parts, S.ok n d) :
    S.Agree n S.Value (Eval.bindRecursively ev parts env)
      (Eval.bindRecursively ev' (parts.map S.datum) (S.frame env)) := by
  refine (agree_splitLet .letRec hparts).bind fun k p p' hk hp => ?_
  obtain ⟨ps, body⟩ := p
  obtain ⟨ps', body'⟩ := p'
  obtain ⟨⟨hps, rfl⟩, hbody, rfl⟩ := hp
  refine (agree_child (S.live_mono hk henv)).bind fun k' inner inner' hk' hinner => ?_
  rw [hinner.2]
  refine (agree_declareAll hinner.1 ps).bind fun k'' _ _ hk'' _ => ?_
  have hle := Nat.le_trans hk' hk''
  have hlive := S.live_mono hk'' hinner.1
  refine (agree_bindPairs hev hlive hlive fun p hp => S.ok_mono hle (hps p hp)).bind
    fun k₃ _ _ hk₃ _ => ?_
  exact hev.agree (S.ok_mono (Nat.le_trans hle hk₃) hbody)
    (S.live_mono (Nat.le_trans hk'' hk₃) hinner.1)

theorem agree_prepend (hev : S.Evaluates ev ev') (henv : S.live n env)
    (hparts : ∀ d ∈ parts, S.ok n d) :
    S.Agree n S.Value (Eval.prepend ev parts env)
      (Eval.prepend ev' (parts.map S.datum) (S.frame env)) := by
  match parts, hparts with
  | [], _ => exact agree_fail _
  | [_], _ => exact agree_fail _
  | [item, tail], hparts =>
    refine (hev.agree (hparts item (by simp)) henv).bind fun k v v' hk hv => ?_
    refine (hev.agree (S.ok_mono hk (hparts tail (by simp))) (S.live_mono hk henv)).bind
      fun k' w w' hk' hw => ?_
    rw [hv.eq, hw.eq, Datum.items?_rename]
    cases hitems : w.items? with
    | none => exact agree_failWith (Datum.render_rename S.map w)
    | some vs =>
      have hlist : S.ok k' (.list (v :: vs)) := by
        rw [S.ok_list, List.forall_mem_cons]
        exact ⟨S.ok_mono hk' hv.ok, ok_of_items? hw.ok hitems⟩
      have hvalue := agree_value hlist
      rwa [datum, Datum.rename_list] at hvalue
  | _ :: _ :: _ :: _, _ => exact agree_fail _

theorem agree_special (hev : S.Evaluates ev ev') (henv : S.live n env) (form : Keyword)
    (hparts : ∀ d ∈ parts, S.ok n d) :
    S.Agree n S.Value (Eval.special ev form parts env)
      (Eval.special ev' form (parts.map S.datum) (S.frame env)) := by
  cases form with
  | quote =>
    match parts, hparts with
    | [], _ => exact agree_fail _
    | [d], hparts => exact agree_value (hparts d (by simp))
    | _ :: _ :: _, _ => exact agree_fail _
  | define => exact agree_bindName hev henv _ hparts
  | assign => exact agree_bindName hev henv _ hparts
  | lambda => exact agree_makeClosure hparts henv
  | ifThen => exact agree_branch hev henv hparts
  | letPlain => exact agree_bindTogether hev henv hparts
  | letSeq => exact agree_bindInTurn hev henv hparts
  | letRec => exact agree_bindRecursively hev henv hparts
  | car =>
    match parts, hparts with
    | [], _ => exact agree_fail _
    | [e], hparts =>
      refine (hev.agree (hparts e (by simp)) henv).bind fun k v v' _ hv => ?_
      rw [hv.eq]
      refine (agree_uncons .car hv.ok).bind fun k' p p' _ hp => ?_
      rw [hp.1.2]
      exact agree_value hp.1.1
    | _ :: _ :: _, _ => exact agree_fail _
  | cdr =>
    match parts, hparts with
    | [], _ => exact agree_fail _
    | [e], hparts =>
      refine (hev.agree (hparts e (by simp)) henv).bind fun k v v' _ hv => ?_
      rw [hv.eq]
      refine (agree_uncons .cdr hv.ok).bind fun k' p p' _ hp => ?_
      have hvalue := agree_value (S.ok_list.mpr hp.2.1)
      rw [datum, Datum.rename_list] at hvalue
      rw [hp.2.2]
      exact hvalue
    | _ :: _ :: _, _ => exact agree_fail _
  | cons => exact agree_prepend hev henv hparts

/-- The operands of arithmetic and comparison yield the same numbers. -/
theorem agree_operands (hev : S.Evaluates ev ev') (henv : S.live n env) (op : Operator)
    (hparts : ∀ d ∈ parts, S.ok n d) {f : List Number → Eval Datum}
    (hf : ∀ k ns, S.Agree k S.Value (f ns) (f ns)) :
    S.Agree n S.Value (do f (← Eval.numbers op (← Eval.each ev env parts)))
      (do f (← Eval.numbers op (← Eval.each ev' (S.frame env) (parts.map S.datum)))) := by
  refine (agree_each hev henv hparts).bind fun k vs vs' _ hvs => ?_
  rw [hvs.eq]
  refine (agree_numbers op vs).bind fun k' ns ns' _ hns => ?_
  rw [hns]
  exact hf k' ns

theorem agree_operate (hev : S.Evaluates ev ev') (henv : S.live n env) (op : Operator)
    (hparts : ∀ d ∈ parts, S.ok n d) :
    S.Agree n S.Value (Eval.operate ev op parts env)
      (Eval.operate ev' op (parts.map S.datum) (S.frame env)) := by
  cases op with
  | plus | times =>
    exact agree_operands hev henv _ hparts fun _ _ => agree_arithmetic _ _
  | minus | divide =>
    refine agree_operands hev henv _ hparts fun k ns => ?_
    cases ns with
    | nil => exact agree_fail _
    | cons first rest => exact agree_arithmetic _ _
  | equal | less | atMost | greater | atLeast =>
    exact agree_operands hev henv _ hparts fun k _ => agree_value (S.ok_bool k _)
  | and =>
    refine (agree_reaches hev henv .and false hparts).bind fun k b b' _ hb => ?_
    rw [hb]
    exact agree_value (S.ok_bool k _)
  | or =>
    refine (agree_reaches hev henv .or true hparts).bind fun k b b' _ hb => ?_
    rw [hb]
    exact agree_value (S.ok_bool k _)
  | not =>
    match parts, hparts with
    | [], _ => exact agree_fail _
    | [e], hparts =>
      refine (hev.agree (hparts e (by simp)) henv).bind fun k v v' _ hv => ?_
      rw [hv.eq]
      refine (agree_boolean .not v).bind fun k' b b' _ hb => ?_
      rw [hb]
      exact agree_value (S.ok_bool k' _)
    | _ :: _ :: _, _ => exact agree_fail _

/-- A call whose head is evaluated. -/
theorem agree_call (hev : S.Evaluates ev ev') (henv : S.live n env) {head : Datum}
    (hhead : S.ok n head) (hparts : ∀ d ∈ parts, S.ok n d) :
    S.Agree n S.Value
      (do match ← ev head env with
          | .closure formals body captured =>
            let args ← Eval.each ev env parts
            Eval.apply ev formals body captured args
          | v => Eval.fail (.notApplicable (← Eval.text v.render)))
      (do match ← ev' (S.datum head) (S.frame env) with
          | .closure formals body captured =>
            let args ← Eval.each ev' (S.frame env) (parts.map S.datum)
            Eval.apply ev' formals body captured args
          | v => Eval.fail (.notApplicable (← Eval.text v.render))) := by
  refine (hev.agree hhead henv).bind fun k v v' hk hv => ?_
  obtain ⟨hok, rfl⟩ := hv
  have htext := Datum.render_rename S.map v
  cases v with
  | closure formals body captured =>
    rw [datum, Datum.rename_closure]
    refine (agree_each hev (S.live_mono hk henv) fun d hd => S.ok_mono hk (hparts d hd)).bind
      fun k' args args' hk' hargs => ?_
    rw [hargs.eq]
    exact agree_apply hev (S.ok_mono hk' hok) hargs.1
  | _ => exact agree_failWith htext

end Forms

/-! ## Evaluation -/

/-- **Evaluation respects every simulation.** Evaluating a datum and its renaming, in
corresponding machines and frames, reaches corresponding machines and outcomes. -/
theorem agree_eval (S : Simulation) (fuel : Nat) : S.Evaluates (eval fuel) (eval fuel) := by
  induction fuel with
  | zero => exact ⟨fun _ _ => agree_throw .tooDeep⟩
  | succ fuel ih =>
    refine ⟨?_⟩
    intro n e env he henv
    -- what does not evaluate is quoted in the error
    have hother := Datum.inspect_rename S.map e
    cases e with
    | number x => exact agree_value he
    | bool b => exact agree_value he
    | str s => exact agree_value he
    | closure formals body captured =>
      have hvalue := agree_value he
      rw [datum, Datum.rename_closure] at hvalue ⊢
      exact hvalue
    | symbol x => exact agree_lookup henv x
    | list items =>
      have hitems := S.ok_list.mp he
      rw [datum, Datum.rename_list]
      cases items with
      | nil => exact agree_value he
      | cons head parts =>
        rw [List.forall_mem_cons] at hitems
        cases head with
        | keyword form => exact agree_special ih henv form hitems.2
        | operator op => exact agree_operate ih henv op hitems.2
        | _ => exact agree_call ih henv hitems.1 hitems.2
    | _ => exact agree_failWith hother

end Simulation

/-- Corresponding outcomes are one outcome and its renaming, if only frames are renamed. -/
theorem eq_map_of_paired {S : Simulation} (hname : S.map.name = id) {n : Nat}
    {o o' : Except Halt Datum} (h : Paired (Halt.Alike S.map) (S.Value n) o o') :
    o' = o.map (Datum.rename S.map) := by
  cases h with
  | ok hv =>
    rw [hv.eq]
    rfl
  | error hhalt =>
    cases hhalt with
    | tooDeep => rfl
    | oversized o => rfl
    | error halike =>
      rw [halike.2 hname]
      rfl

end SmallScheme
