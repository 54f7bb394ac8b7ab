import Mathlib.Data.Set.Insert
import SmallScheme.Proofs.Machine

/-!
# Frame isolation

Evaluation in a frame writes to that frame and to the frames it makes itself, and
to no other: `Confined written c` says so of a computation `c`, whatever its
outcome, and holds of sequences, so each form gets one short lemma.

Main statement: `eval_isolates_frames`. A call is confined to frames of its own,
so neither the frame of its procedure nor that of its caller is written to.
-/

namespace SmallScheme

/-! ## Growing frames -/

/-- What writing leaves of a frame: its outer frame, and its names in their order. New
names come last. -/
structure Frame.Grows (f f' : Frame) : Prop where
  outer : f'.outer = f.outer
  names : f.bindings.map (·.1) <+: f'.bindings.map (·.1)

theorem Frame.Grows.refl (f : Frame) : f.Grows f :=
  ⟨rfl, List.prefix_rfl⟩

theorem Frame.Grows.trans {f g k : Frame} (hfg : f.Grows g) (hgk : g.Grows k) : f.Grows k :=
  ⟨hgk.outer.trans hfg.outer, hfg.names.trans hgk.names⟩

theorem Bindings.names_put (x : String) (v : Datum) (bs : Bindings) :
    bs.map (·.1) <+: (bs.put x v).map (·.1) := by
  induction bs with
  | nil => exact List.nil_prefix
  | cons b bs ih =>
    obtain ⟨y, w⟩ := b
    rw [Bindings.put]
    split
    · rename_i hyx
      subst hyx
      exact List.prefix_rfl
    · exact List.cons_prefix_cons.mpr ⟨rfl, ih⟩

theorem Frame.grows_assign (f : Frame) (x : String) (v : Datum) : f.Grows (f.assign x v) :=
  ⟨rfl, Bindings.names_put x v f.bindings⟩

theorem Frame.grows_declare (f : Frame) (x : String) : f.Grows (f.declare x) := by
  unfold Frame.declare
  split
  · exact .refl f
  · exact f.grows_assign x .unassigned

/-! ## Heaps that differ in some frames only -/

/-- `h'` has the frames of `h` and perhaps more, and those that are not in `written` are
the same in both. -/
structure Heap.Extends (written : Set FrameId) (h h' : Heap) : Prop where
  grows : ∀ (i : FrameId) (f : Frame), h.frames[i]? = some f →
    ∃ f', h'.frames[i]? = some f' ∧ f.Grows f'
  same : ∀ i < h.size, i ∉ written → h'.frames[i]? = h.frames[i]?

namespace Heap.Extends

variable {written written' : Set FrameId} {h h' h'' : Heap}

theorem refl (written : Set FrameId) (h : Heap) : h.Extends written h :=
  ⟨fun _ f hf => ⟨f, hf, .refl f⟩, fun _ _ _ => rfl⟩

theorem size_le (e : h.Extends written h') : h.size ≤ h'.size := by
  by_contra hlt
  -- otherwise the first frame that `h'` lacks would have to be in it
  obtain ⟨f, hf⟩ := exists_frame (Nat.lt_of_not_le hlt)
  obtain ⟨f', hf', -⟩ := e.grows h'.size f hf
  exact Nat.lt_irrefl _ (lt_size_of_frame hf')

theorem trans (e : h.Extends written h') (e' : h'.Extends written h'') :
    h.Extends written h'' := by
  refine ⟨?_, ?_⟩
  · intro i f hf
    obtain ⟨f', hf', hg⟩ := e.grows i f hf
    obtain ⟨f'', hf'', hg'⟩ := e'.grows i f' hf'
    exact ⟨f'', hf'', hg.trans hg'⟩
  · intro i hi hw
    rw [e'.same i (Nat.lt_of_lt_of_le hi e.size_le) hw, e.same i hi hw]

theorem mono (hsub : written ⊆ written') (e : h.Extends written h') : h.Extends written' h' :=
  ⟨e.grows, fun i hi hw => e.same i hi (fun hmem => hw (hsub hmem))⟩

/-- Writing to one frame. -/
theorem update (h : Heap) {i : FrameId} {f : Frame → Frame} (hi : i ∈ written)
    (hf : ∀ g : Frame, g.Grows (f g)) : h.Extends written (h.update i f) := by
  refine ⟨?_, ?_⟩
  · intro j g hg
    by_cases hji : j = i
    · subst hji
      exact ⟨f g, by rw [frames_update_self, hg]; rfl, hf g⟩
    · exact ⟨g, by rw [frames_update_ne h f hji, hg], .refl g⟩
  · intro j _ hw
    have hji : j ≠ i := fun e => hw (e ▸ hi)
    exact frames_update_ne h f hji

/-- Adding a frame. -/
theorem push (written : Set FrameId) (h : Heap) (f : Frame) : h.Extends written (h.push f) := by
  refine ⟨?_, ?_⟩
  · intro i g hg
    exact ⟨g, by rw [frames_push_of_lt h f (lt_size_of_frame hg), hg], .refl g⟩
  · intro i hi _
    exact frames_push_of_lt h f hi

/-- A frame beyond those of `h` does not count as written. -/
theorem of_insert_size (e : h.Extends (insert h.size written) h') : h.Extends written h' := by
  refine ⟨e.grows, ?_⟩
  intro i hi hw
  refine e.same i hi ?_
  rw [Set.mem_insert_iff]
  rintro (hsize | hmem)
  · exact Nat.ne_of_lt hi hsize
  · exact hw hmem

end Heap.Extends

namespace Eval

variable {α β : Type} {written written' : Set FrameId}

/-! ## Confined computations -/

/-- A computation writes to frames in `written` and to frames that it makes itself,
however it ends. -/
def Confined (written : Set FrameId) (c : Eval α) : Prop :=
  ∀ m : Machine, m.heap.Extends written (c.exec m).2.heap

theorem Confined.mono {c : Eval α} (hsub : written ⊆ written') (hc : Confined written c) :
    Confined written' c :=
  fun m => (hc m).mono hsub

theorem Confined.bind {c : Eval α} {f : α → Eval β} (hc : Confined written c)
    (hf : ∀ a, Confined written (f a)) : Confined written (c >>= f) := by
  intro m
  have hfirst := hc m
  rw [exec_bind]
  rcases hrun : c.exec m with ⟨halt | a, m'⟩ <;> rw [hrun] at hfirst
  · exact hfirst
  · exact hfirst.trans (hf a m')

theorem confined_pure (a : α) : Confined written (pure a) :=
  fun m => .refl written m.heap

theorem confined_throw (halt : Halt) : Confined written (throw halt : Eval α) :=
  fun m => .refl written m.heap

theorem confined_fail (e : Error) : Confined written (fail e : Eval α) :=
  fun m => .refl written m.heap

theorem confined_text (t : Except Oversized String) : Confined written (text t) := by
  cases t with
  | ok s => exact confined_pure s
  | error o => exact confined_throw _

/-- Stopping with an error that quotes a text. -/
theorem confined_failWith (e : String → Error) (t : Except Oversized String) :
    Confined written (do fail (e (← text t)) : Eval α) :=
  (confined_text t).bind fun s => confined_fail (e s)

theorem confined_record (e : Event) : Confined written (record e) :=
  fun m => .refl written m.heap

theorem confined_lookup (env : FrameId) (x : String) : Confined written (lookup env x) := by
  intro m
  rw [exec_lookup]
  cases m.heap.lookup env x with
  | ok v => exact .refl written m.heap
  | error e => exact .refl written m.heap

theorem confined_declare {env : FrameId} (henv : env ∈ written) (x : String) :
    Confined written (declare env x) :=
  fun m => .update m.heap henv fun f => f.grows_declare x

theorem confined_assign {env : FrameId} (henv : env ∈ written) (x : String) (v : Datum) :
    Confined written (assign env x v) :=
  fun m => .update m.heap henv fun f => f.grows_assign x v

/-- What goes on in a new frame may write to that frame, too. -/
theorem confined_child_bind (env : FrameId) {f : FrameId → Eval α}
    (hf : ∀ inner, Confined (insert inner written) (f inner)) :
    Confined written (child env >>= f) := by
  intro m
  rw [exec_bind, exec_child]
  have hpush := Heap.Extends.push (insert m.heap.size written) m.heap { outer := some env }
  have hrest := hf m.heap.size { m with heap := m.heap.push { outer := some env } }
  exact (hpush.trans hrest).of_insert_size

/-! ## Data that the forms take apart -/

theorem confined_parameters (ps : List Datum) : Confined written (parameters ps) := by
  induction ps with
  | nil => exact confined_pure _
  | cons p ps ih =>
    rw [parameters]
    split
    · exact ih.bind fun _ => confined_pure _
    · exact confined_failWith _ _

theorem confined_pairs (form : Keyword) (ds : List Datum) : Confined written (pairs form ds) := by
  induction ds with
  | nil => exact confined_pure _
  | cons d ds ih =>
    rw [pairs]
    split
    · exact ih.bind fun _ => confined_pure _
    · exact confined_failWith _ _

theorem confined_splitLet (form : Keyword) (parts : List Datum) :
    Confined written (splitLet form parts) := by
  unfold splitLet
  split
  · split
    · exact (confined_pairs form _).bind fun _ => confined_pure _
    · exact confined_failWith _ _
  · exact confined_fail _

theorem confined_uncons (form : Keyword) (v : Datum) : Confined written (uncons form v) := by
  unfold uncons
  split
  · exact confined_pure _
  · exact confined_fail _
  · exact confined_failWith _ _

theorem confined_numbers (op : Operator) (vs : List Datum) : Confined written (numbers op vs) := by
  induction vs with
  | nil => exact confined_pure _
  | cons v vs ih =>
    rw [numbers]
    split
    · exact ih.bind fun _ => confined_pure _
    · exact confined_failWith _ _

theorem confined_boolean (op : Operator) (v : Datum) : Confined written (boolean op v) := by
  unfold boolean
  split
  · exact confined_pure _
  · exact confined_failWith _ _

theorem confined_arithmetic (op : Operator) (r : Except ArithmeticFault Number) :
    Confined written (arithmetic op r) := by
  unfold arithmetic
  split
  · exact confined_pure _
  · exact confined_fail _
  · exact confined_fail _

theorem confined_makeClosure (parts : List Datum) (env : FrameId) :
    Confined written (makeClosure parts env) := by
  unfold makeClosure
  split
  · split
    · refine (confined_parameters _).bind fun names => ?_
      split
      · exact (confined_record _).bind fun _ => confined_pure _
      · exact confined_fail _
    · exact confined_failWith _ _
  · exact confined_fail _

theorem confined_bindArguments {env : FrameId} (henv : env ∈ written) (ps vs : List Datum) :
    Confined written (bindArguments env ps vs) := by
  induction ps generalizing vs with
  | nil => exact confined_pure _
  | cons p ps ih =>
    cases vs with
    | nil => exact confined_pure _
    | cons v vs =>
      rw [bindArguments]
      split
      · exact (confined_assign henv _ v).bind fun _ => ih vs
      · exact confined_failWith _ _

theorem confined_declareAll {env : FrameId} (henv : env ∈ written) (ps : List (String × Datum)) :
    Confined written (declareAll env ps) := by
  induction ps with
  | nil => exact confined_pure _
  | cons p ps ih => exact (confined_declare henv p.1).bind fun _ => ih

/-! ## The forms

An evaluator that writes to the frame it evaluates in, and to no other old one, makes
every form do so. -/

section Forms

variable {ev : Evaluator} (hev : ∀ e env, Confined {env} (ev e env))

include hev

theorem confined_ev {env : FrameId} (henv : env ∈ written) (e : Datum) :
    Confined written (ev e env) :=
  (hev e env).mono (Set.singleton_subset_iff.mpr henv)

theorem confined_each {env : FrameId} (henv : env ∈ written) (es : List Datum) :
    Confined written (each ev env es) := by
  induction es with
  | nil => exact confined_pure _
  | cons e es ih =>
    exact (confined_ev hev henv e).bind fun _ => ih.bind fun _ => confined_pure _

theorem confined_bindPairs {env inner : FrameId} (henv : env ∈ written) (hinner : inner ∈ written)
    (ps : List (String × Datum)) : Confined written (bindPairs ev env inner ps) := by
  induction ps with
  | nil => exact confined_pure _
  | cons p ps ih =>
    exact (confined_ev hev henv p.2).bind fun v =>
      (confined_assign hinner p.1 v).bind fun _ => ih

theorem confined_reaches {env : FrameId} (henv : env ∈ written) (op : Operator) (stop : Bool)
    (es : List Datum) : Confined written (reaches op stop ev env es) := by
  induction es with
  | nil => exact confined_pure _
  | cons e es ih =>
    refine (confined_ev hev henv e).bind fun v => (confined_boolean op v).bind fun b => ?_
    split
    · exact confined_pure _
    · exact ih

theorem confined_bindName {env : FrameId} (henv : env ∈ written) (form : Keyword)
    (parts : List Datum) : Confined written (bindName ev form parts env) := by
  unfold bindName
  split
  · split
    · exact (confined_declare henv _).bind fun _ => (confined_ev hev henv _).bind fun v =>
        (confined_assign henv _ v).bind fun _ => confined_pure _
    · exact confined_failWith _ _
  · exact confined_fail _

theorem confined_branch {env : FrameId} (henv : env ∈ written) (parts : List Datum) :
    Confined written (branch ev parts env) := by
  unfold branch
  split
  · refine (confined_ev hev henv _).bind fun v => ?_
    split
    · exact confined_ev hev henv _
    · exact confined_pure _
  · refine (confined_ev hev henv _).bind fun v => ?_
    split
    · exact confined_ev hev henv _
    · exact confined_ev hev henv _
  · exact confined_fail _

/-- A call writes to no frame that was there before it. -/
theorem confined_apply (formals : List Datum) (body : Datum) (frame : FrameId)
    (args : List Datum) : Confined written (apply ev formals body frame args) := by
  unfold apply
  dsimp only
  split
  · refine confined_child_bind frame fun inner => ?_
    have hinner : inner ∈ insert inner written := Set.mem_insert inner written
    exact (confined_bindArguments hinner formals args).bind fun _ =>
      (confined_record _).bind fun _ => confined_ev hev hinner body
  · exact confined_failWith _ _

theorem confined_bindTogether {env : FrameId} (henv : env ∈ written) (parts : List Datum) :
    Confined written (bindTogether ev parts env) := by
  refine (confined_splitLet _ parts).bind fun p => confined_child_bind env fun inner => ?_
  have hinner : inner ∈ insert inner written := Set.mem_insert inner written
  exact (confined_bindPairs hev (Set.mem_insert_of_mem inner henv) hinner p.1).bind fun _ =>
    confined_ev hev hinner p.2

theorem confined_bindInTurn {env : FrameId} (parts : List Datum) :
    Confined written (bindInTurn ev parts env) := by
  refine (confined_splitLet _ parts).bind fun p => confined_child_bind env fun inner => ?_
  have hinner : inner ∈ insert inner written := Set.mem_insert inner written
  exact (confined_bindPairs hev hinner hinner p.1).bind fun _ => confined_ev hev hinner p.2

theorem confined_bindRecursively {env : FrameId} (parts : List Datum) :
    Confined written (bindRecursively ev parts env) := by
  refine (confined_splitLet _ parts).bind fun p => confined_child_bind env fun inner => ?_
  have hinner : inner ∈ insert inner written := Set.mem_insert inner written
  exact (confined_declareAll hinner p.1).bind fun _ =>
    (confined_bindPairs hev hinner hinner p.1).bind fun _ => confined_ev hev hinner p.2

theorem confined_prepend {env : FrameId} (henv : env ∈ written) (parts : List Datum) :
    Confined written (prepend ev parts env) := by
  unfold prepend
  split
  · refine (confined_ev hev henv _).bind fun v => (confined_ev hev henv _).bind fun w => ?_
    split
    · exact confined_pure _
    · exact confined_failWith _ _
  · exact confined_fail _

theorem confined_special {env : FrameId} (henv : env ∈ written) (form : Keyword)
    (parts : List Datum) : Confined written (special ev form parts env) := by
  cases form with
  | quote =>
    unfold special
    dsimp only
    split
    · exact confined_pure _
    · exact confined_fail _
  | define => exact confined_bindName hev henv _ parts
  | assign => exact confined_bindName hev henv _ parts
  | lambda => exact confined_makeClosure parts env
  | ifThen => exact confined_branch hev henv parts
  | letPlain => exact confined_bindTogether hev henv parts
  | letSeq => exact confined_bindInTurn hev parts
  | letRec => exact confined_bindRecursively hev parts
  | car =>
    unfold special
    dsimp only
    split
    · exact (confined_ev hev henv _).bind fun v =>
        (confined_uncons .car v).bind fun _ => confined_pure _
    · exact confined_fail _
  | cdr =>
    unfold special
    dsimp only
    split
    · exact (confined_ev hev henv _).bind fun v =>
        (confined_uncons .cdr v).bind fun _ => confined_pure _
    · exact confined_fail _
  | cons => exact confined_prepend hev henv parts

/-- The operands of arithmetic and comparison are all evaluated, then all checked. -/
theorem confined_operands {env : FrameId} (henv : env ∈ written) (op : Operator)
    (operands : List Datum) {f : List Number → Eval Datum} (hf : ∀ ns, Confined written (f ns)) :
    Confined written (do f (← numbers op (← each ev env operands))) :=
  (confined_each hev henv operands).bind fun vs => (confined_numbers op vs).bind hf

theorem confined_operate {env : FrameId} (henv : env ∈ written) (op : Operator)
    (operands : List Datum) : Confined written (operate ev op operands env) := by
  cases op with
  | plus => exact confined_operands hev henv _ operands fun _ => confined_arithmetic _ _
  | times => exact confined_operands hev henv _ operands fun _ => confined_arithmetic _ _
  | minus | divide =>
    refine confined_operands hev henv _ operands fun ns => ?_
    cases ns with
    | nil => exact confined_fail _
    | cons first rest => exact confined_arithmetic _ _
  | equal | less | atMost | greater | atLeast =>
    exact confined_operands hev henv _ operands fun _ => confined_pure _
  | and => exact (confined_reaches hev henv _ false operands).bind fun _ => confined_pure _
  | or => exact (confined_reaches hev henv _ true operands).bind fun _ => confined_pure _
  | not =>
    unfold operate
    dsimp only
    split
    · exact (confined_ev hev henv _).bind fun v =>
        (confined_boolean .not v).bind fun _ => confined_pure _
    · exact confined_fail _

end Forms

end Eval

/-! ## Evaluation -/

open Eval in
/-- Evaluation writes to the frame it evaluates in and to frames that it makes itself. -/
theorem confined_eval (fuel : Nat) (e : Datum) (env : FrameId) :
    Confined {env} (eval fuel e env) := by
  induction fuel generalizing e env with
  | zero => exact confined_throw _
  | succ fuel ih =>
    have henv : env ∈ ({env} : Set FrameId) := Set.mem_singleton env
    unfold eval
    -- one case for each equation of `eval`: data that stand for themselves come first
    split
    · exact confined_pure _
    · exact confined_pure _
    · exact confined_pure _
    · exact confined_pure _
    · exact confined_lookup env _
    · exact confined_pure _
    · exact confined_special ih henv _ _
    · exact confined_operate ih henv _ _
    · refine (confined_ev ih henv _).bind fun v => ?_
      split
      -- the call writes to frames of its own only, so `{env}` bounds it as any set does
      · exact (confined_each ih henv _).bind fun args => confined_apply ih _ _ _ args
      · exact confined_failWith _ _
    all_goals exact confined_failWith _ _

/-- **Frame isolation.** However evaluation in a frame ends, with a value, an error or
for lack of depth, every other frame that was there before has the bindings and the outer
frame it had, and the frame itself keeps its outer frame and its names. A call leaves all
frames that were there before as they were, that of its procedure and that of its caller
among them. -/
theorem eval_isolates_frames (fuel : Nat) (m : Machine) :
    (∀ (e : Datum) (env : FrameId),
      let after := ((eval fuel e env).exec m).2.heap
      (∀ i < m.heap.size, i ≠ env → after.frames[i]? = m.heap.frames[i]?) ∧
      (∀ f, m.heap.frames[env]? = some f → ∃ f', after.frames[env]? = some f' ∧ f.Grows f')) ∧
    (∀ (formals : List Datum) (body : Datum) (frame : FrameId) (args : List Datum),
      let after := ((Eval.apply (eval fuel) formals body frame args).exec m).2.heap
      ∀ i < m.heap.size, after.frames[i]? = m.heap.frames[i]?) := by
  refine ⟨?_, ?_⟩
  · intro e env after
    have hext := confined_eval fuel e env m
    exact ⟨fun i hi hne => hext.same i hi hne, fun f hf => hext.grows env f hf⟩
  · intro formals body frame args after i hi
    have hcall : Eval.Confined ∅ (Eval.apply (eval fuel) formals body frame args) :=
      Eval.confined_apply (confined_eval fuel) formals body frame args
    exact (hcall m).same i hi (Set.notMem_empty i)

/-- A call from frame `1` of a procedure of frame `0` that sets a name of frame `0` and then
fails: the name has its old value there. -/
theorem eval_isolates_frames_failing_call :
    let m : Machine :=
      { heap := { frames := #[{ bindings := [("x", .int 1)] }, { outer := some 0 }] } }
    let body : Datum := .list [.keyword .assign, .symbol "x", .symbol "y"]
    let call : Datum := .list [.closure [] body 0]
    (0 < m.heap.size ∧ (0 : FrameId) ≠ 1 ∧
      ((eval 5 call 1).exec m).1 = .error (.fault (.error (.unbound "y")))) ∧
    ((eval 5 call 1).exec m).2.heap.frames[0]? = m.heap.frames[0]? :=
  ⟨⟨by decide, by decide, rfl⟩, ((eval_isolates_frames 5 _).1 _ 1).1 0 (by decide) (by decide)⟩

end SmallScheme
