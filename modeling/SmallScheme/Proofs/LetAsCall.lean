import SmallScheme.Proofs.ReachableHeaps
import SmallScheme.Proofs.Replay

/-!
# `let` is the call of a procedure

`(let ((x e) ...) body)` makes its frame before it evaluates the values, and binds each of
them at once. `((lambda (x ...) body) e ...)` evaluates all values first and then makes
the frame. In between, the values may do anything: define names, make frames, keep
procedures of those frames, fail. All the same the two forms agree, up to the numbers of
the frames that they make.

* **`bindPairs_follows_each`** — while the values are evaluated, the frame of the `let` is
  one that the call does not have, and nothing refers to it;
* **`Copied.adopt`** — once the call has made its frame, it is the same as that of the
  `let`, which is older than the frames of the values;
* **`let_is_call`** — the two forms as a whole.
-/

namespace SmallScheme

/-! ## The two forms -/

namespace Datum

/-- `(let ((x e) ...) body)`. -/
def letForm (bindings : List (String × Datum)) (body : Datum) : Datum :=
  .list [.keyword .letPlain, .list (bindings.map fun b => .list [.symbol b.1, b.2]), body]

/-- `((lambda (x ...) body) e ...)`. -/
def lambdaCall (bindings : List (String × Datum)) (body : Datum) : Datum :=
  .list (.list [.keyword .lambda, .list ((bindings.map (·.1)).map .symbol), body] ::
    bindings.map (·.2))

end Datum

namespace Eval

variable {bindings : List (String × Datum)} {body : Datum} {env : FrameId}

theorem exec_pairs (form : Keyword) (bindings : List (String × Datum)) (m : Machine) :
    (pairs form (bindings.map fun b => .list [.symbol b.1, b.2])).exec m = (.ok bindings, m) := by
  induction bindings with
  | nil => rfl
  | cons b bindings ih =>
    show (pairs form _ >>= fun ps => pure (b :: ps)).exec m = _
    rw [exec_bind, ih]
    rfl

theorem exec_parameters (names : List String) (m : Machine) :
    (parameters (names.map .symbol)).exec m = (.ok names, m) := by
  induction names with
  | nil => rfl
  | cons x names ih =>
    show (parameters (names.map .symbol) >>= fun xs => pure (x :: xs)).exec m = _
    rw [exec_bind, ih]
    rfl

/-- A `let` makes a frame, binds its names there and evaluates its body there. -/
theorem exec_letForm (fuel : Nat) (bindings : List (String × Datum)) (body : Datum)
    (env : FrameId) (m : Machine) :
    (eval (fuel + 1) (.letForm bindings body) env).exec m =
      (bindPairs (eval fuel) env m.heap.size bindings >>= fun _ =>
        eval fuel body m.heap.size).exec { m with heap := m.heap.push { outer := some env } } := by
  show (bindTogether (eval fuel) _ env).exec m = _
  have hsplit : (splitLet .letPlain
      [.list (bindings.map fun b => .list [.symbol b.1, b.2]), body]).exec m =
        (.ok (bindings, body), m) := by
    show (pairs _ _ >>= fun ps => pure (ps, body)).exec m = _
    rw [exec_bind, exec_pairs]
    rfl
  rw [bindTogether, exec_bind, hsplit]
  dsimp only
  rw [exec_bind, exec_child]

/-- The procedure of a call is made, then the arguments are evaluated, then it is called. -/
theorem exec_lambdaCall (fuel : Nat) (hnames : (bindings.map (·.1)).Nodup) (body : Datum)
    (env : FrameId) (m : Machine) :
    let formals := (bindings.map (·.1)).map Datum.symbol
    (eval (fuel + 2) (.lambdaCall bindings body) env).exec m =
      (each (eval (fuel + 1)) env (bindings.map (·.2)) >>= fun args =>
        apply (eval (fuel + 1)) formals body env args).exec
          { m with trace := m.trace.push (.closureMade (.closure formals body env)) } := by
  intro formals
  have hclosure : (eval (fuel + 1) (.list [.keyword .lambda, .list formals, body]) env).exec m =
      (.ok (.closure formals body env),
        { m with trace := m.trace.push (.closureMade (.closure formals body env)) }) := by
    show (makeClosure [.list formals, body] env).exec m = _
    show (parameters formals >>= _).exec m = _
    rw [exec_bind, exec_parameters]
    dsimp only
    rw [if_pos hnames]
    rfl
  show (eval (fuel + 1) (.list [.keyword .lambda, .list formals, body]) env >>= _).exec m = _
  rw [exec_bind, hclosure]

end Eval

/-! ## While the values are evaluated -/

namespace Eval

open Heap

variable {bindings : List (String × Datum)} {env : FrameId} {n : Nat} {m m' : Machine} {f : Frame}

theorem shift_one_ne (n i : Nat) : shift n 1 i ≠ n := by
  unfold shift
  split <;> omega

/-- What the values of a call (`values`) and of a `let` with the frame `n` (`bound`) come to,
from a heap with `size` frames on: the `let` has copies of all frames of the call. Both
failed at the same value, or the frame `n`, which was `f`, has all of them. -/
structure ValuesBound (n : Nat) (f : Frame) (names : List String) (size : Nat)
    (values : Except Halt (List Datum) × Machine) (bound : Except Halt Unit × Machine) :
    Prop where
  size_le : size ≤ values.2.heap.size
  copied : Copied (shiftFrames n 1) values.2.heap bound.2.heap
  outcome : Paired Eq
    (fun vs _ => vs.length = names.length ∧ (∀ v ∈ vs, v.Within values.2.heap.size) ∧
      bound.2.heap.frames[n]? =
        some ⟨f.bindings ++ names.zip (vs.map (Datum.rename (shiftFrames n 1))), f.outer⟩)
    values.1 bound.1

/-- The values of a `let` are those of a call, evaluated beside the frame of the `let`, which
takes each value as it comes. -/
theorem bindPairs_follows_each (fuel : Nat) (henv : env < n) (hn : n ≤ m.heap.size)
    (hnames : (bindings.map (·.1)).Nodup) (hexprs : ∀ b ∈ bindings, b.2.Within n)
    (hfresh : ∀ x ∈ bindings.map (·.1), f.bindings.has x = false)
    (hcopied : Copied (shiftFrames n 1) m.heap m'.heap) (hframe : m'.heap.frames[n]? = some f) :
    ValuesBound n f (bindings.map (·.1)) m.heap.size
      ((each (eval fuel) env (bindings.map (·.2))).exec m)
      ((bindPairs (eval fuel) env n bindings).exec m') := by
  induction bindings generalizing m m' f with
  | nil =>
    refine ⟨Nat.le_refl _, hcopied, .ok ⟨rfl, by simp, ?_⟩⟩
    rw [List.map_nil, List.zip_nil_left, List.append_nil]
    exact hframe
  | cons b bindings ih =>
    obtain ⟨x, e⟩ := b
    rw [List.forall_mem_cons] at hexprs
    -- the first value: neither run can tell that the other has another number of frames
    have hrename : e.rename (shiftFrames n 1) = e :=
      Datum.rename_of_within rfl (fun i hi => shift_of_lt hi) hexprs.1
    have hshift : (shiftFrames n 1).frame env = env := shift_of_lt henv
    have hfirst := hcopied.exec_eval rfl (shift_injective n 1) fuel (hexprs.1.mono hn)
      (Nat.lt_of_lt_of_le henv hn)
    rw [hrename, hshift] at hfirst
    have hkept : ((eval fuel e env).exec m').2.heap.frames[n]? = some f := by
      rw [← hframe]
      exact (confined_eval fuel e env m').same n (lt_size_of_frame hframe) (Nat.ne_of_gt henv)
    show ValuesBound n f _ _
      ((eval fuel e env >>= fun v => each (eval fuel) env (bindings.map (·.2)) >>=
        fun vs => pure (v :: vs)).exec m)
      ((eval fuel e env >>= fun v => assign n x v >>= fun _ =>
        bindPairs (eval fuel) env n bindings).exec m')
    rw [exec_bind, exec_bind]
    rcases hrun : (eval fuel e env).exec m with ⟨o, m₁⟩
    rcases hrun' : (eval fuel e env).exec m' with ⟨o', m₁'⟩
    rw [hrun, hrun'] at hfirst
    rw [hrun'] at hkept
    obtain ⟨hsize, hcopied₁, hwithin, rfl⟩ := hfirst
    cases o with
    | error halt => exact ⟨hsize, hcopied₁, .error rfl⟩
    | ok v =>
      -- the `let` binds the value in its own frame, of which there is no copy
      obtain ⟨hassign, hfresh'⟩ := Frame.assign_fresh hnames hfresh (v.rename (shiftFrames n 1))
      let m₂' : Machine :=
        { m₁' with heap := m₁'.heap.update n (·.assign x (v.rename (shiftFrames n 1))) }
      have hcopied₂ : Copied (shiftFrames n 1) m₁.heap m₂'.heap :=
        hcopied₁.update_other (fun i _ => shift_one_ne n i) _
      have hframe₂ : m₂'.heap.frames[n]? = some (f.assign x (v.rename (shiftFrames n 1))) := by
        show (m₁'.heap.update n _).frames[n]? = _
        rw [frames_update_self, hkept]
        rfl
      have hrest := ih (Nat.le_trans hn hsize) (List.nodup_cons.mp hnames).2 hexprs.2 hfresh'
        hcopied₂ hframe₂
      show ValuesBound n f _ _
        ((each (eval fuel) env (bindings.map (·.2)) >>= fun vs => pure (v :: vs)).exec m₁)
        ((bindPairs (eval fuel) env n bindings).exec m₂')
      rcases hvalues : (each (eval fuel) env (bindings.map (·.2))).exec m₁ with ⟨os, m₃⟩
      rcases hbound : (bindPairs (eval fuel) env n bindings).exec m₂' with ⟨os', m₃'⟩
      rw [hvalues, hbound] at hrest
      rw [exec_bind, hvalues]
      obtain ⟨hsize₂, hcopied₃, houtcome⟩ := hrest
      have hsize₃ := Nat.le_trans hsize hsize₂
      cases houtcome with
      | error hhalt => exact ⟨hsize₃, hcopied₃, .error hhalt⟩
      | ok hvs =>
        obtain ⟨hlength, hvs, hframe₃⟩ := hvs
        refine ⟨hsize₃, hcopied₃, .ok ⟨congrArg Nat.succ hlength, ?_, ?_⟩⟩
        · exact List.forall_mem_cons.mpr ⟨(hwithin v rfl).mono hsize₂, hvs⟩
        · rw [hassign] at hframe₃
          rw [hframe₃]
          simp

end Eval

/-! ## Once the values are there -/

namespace Heap

variable {n last i : Nat} {h h' : Heap}

/-- The frame `last` takes the number `n`, and the frames from there on make room for it. -/
def rotate (n last i : Nat) : Nat :=
  if i < n then i else if i < last then i + 1 else if i = last then n else i

theorem rotate_of_lt (hi : i < last) : rotate n last i = shift n 1 i := by
  unfold rotate shift
  split_ifs <;> omega

theorem rotate_last (hn : n ≤ last) : rotate n last last = n := by
  unfold rotate
  split_ifs <;> omega

theorem rotate_of_gt (hn : n ≤ last) (hi : last < i) : rotate n last i = i := by
  unfold rotate
  split_ifs <;> omega

theorem rotate_injective (hn : n ≤ last) : Function.Injective (rotate n last) := by
  intro i j hij
  unfold rotate at hij
  split_ifs at hij <;> omega

/-- The frame `n` of the copy, which was a copy of none, is now that of a new frame. -/
theorem Copied.adopt (hc : Copied (shiftFrames n 1) h h') (hn : n ≤ h.size) {f : Frame}
    (hbindings : ∀ b ∈ f.bindings, b.2.Within h.size) (houter : ∀ o, f.outer = some o → o < n)
    (hframe : h'.frames[n]? = some (f.rename (shiftFrames n 1))) :
    Copied { frame := rotate n h.size } (h.push f) h' := by
  have houter' : ∀ o, f.outer = some o → o < h.size :=
    fun o ho => Nat.lt_of_lt_of_le (houter o ho) hn
  have hagree : ∀ j < h.size, (shiftFrames n 1).frame j = rotate n h.size j :=
    fun j hj => (rotate_of_lt hj).symm
  have hname : (shiftFrames n 1).name = ({ frame := rotate n h.size } : Renaming).name := rfl
  have hsize : h'.size = h.size + 1 := (hc.next 0).symm.trans (shift_of_le hn)
  refine ⟨hc.wellFormed.pushFrame houter' hbindings, ?_, ?_, ?_⟩
  · intro j hj
    show h'.frames[rotate n h.size j]? = _
    rw [size_push] at hj
    -- an old frame keeps its copy, and the new one finds its own at `n`
    rcases Nat.lt_or_eq_of_le (Nat.le_of_lt_succ hj) with hlt | rfl
    · obtain ⟨g, hg⟩ := exists_frame hlt
      have hsame : g.rename (shiftFrames n 1) = g.rename { frame := rotate n h.size } :=
        hc.wellFormed.rename_congr hname hagree hg
      rw [frames_push_of_lt h f hlt, hg, Option.map_some, ← hsame, rotate_of_lt hlt]
      exact hc.copied.frame hg
    · have hsame : f.rename (shiftFrames n 1) = f.rename { frame := rotate n h.size } :=
        Frame.rename_congr hname hagree hbindings houter'
      rw [rotate_last hn, hframe, frames_push_size, Option.map_some, hsame]
  · intro j g o hg ho
    show rotate n h.size o < rotate n h.size j
    -- the new frame moves down to `n`, but its outer frame is below that
    rcases frame_push hg with hg | ⟨rfl, rfl⟩
    · have hj := lt_size_of_frame hg
      have hlt : o < j := hc.wellFormed.layered j g o hg ho
      rw [rotate_of_lt hj, rotate_of_lt (Nat.lt_trans hlt hj)]
      exact shift_strictMono n 1 hlt
    · rw [rotate_last hn, rotate_of_lt (houter' o ho), shift_of_lt (houter o ho)]
      exact houter o ho
  · intro k
    show rotate n h.size ((h.push f).size + k) = h'.size + k
    rw [size_push, hsize, rotate_of_gt hn (by omega)]

end Heap

/-! ## Both forms as a whole -/

/-- Two runs with one outcome and the same frames, up to new numbers for the frames from `n`
on. The second run may have a frame more if there is no value. -/
def SameUpToFrames (n : Nat) (run run' : Except Halt Datum × Machine) : Prop :=
  ∃ ρ : FrameId → FrameId, Function.Injective ρ ∧ (∀ i < n, ρ i = i) ∧
    run'.1 = run.1.map (Datum.rename { frame := ρ }) ∧
    (∀ i < run.2.heap.size,
      run'.2.heap.frames[ρ i]? = run.2.heap.frames[i]?.map (Frame.rename { frame := ρ })) ∧
    ∀ v, run.1 = .ok v → run'.2.heap.size = run.2.heap.size

section

open Heap Eval

variable {m : Machine} {env : FrameId} {bindings : List (String × Datum)} {body : Datum}

/-- More frames without a value. -/
theorem sameUpToFrames_of_extends {m m' : Machine} (he : m.heap.Extends ∅ m'.heap) (halt : Halt) :
    SameUpToFrames m.heap.size (.error halt, m) (.error halt, m') := by
  refine ⟨id, Function.injective_id, fun _ _ => rfl, rfl, ?_, by simp⟩
  intro i hi
  obtain ⟨f, hf⟩ := exists_frame hi
  have hold : m'.heap.frames[i]? = m.heap.frames[i]? := he.same i hi (Set.notMem_empty i)
  show m'.heap.frames[i]? = m.heap.frames[i]?.map (Frame.rename {})
  rw [hold, hf, Option.map_some, Frame.rename_id]

theorem Bindings.rename_zip {r : Renaming} (hname : r.name = id) (names : List String)
    (vs : List Datum) :
    Bindings.rename r (names.zip vs) = names.zip (vs.map (Datum.rename r)) := by
  rw [Bindings.rename, List.zip_map_right, hname]
  rfl

/-- Without depth for the parts of the two forms, neither has a value. -/
theorem exec_letForm_one (m : Machine) (env : FrameId) :
    (eval 1 (.letForm bindings body) env).exec m =
      (.error .tooDeep, { m with heap := m.heap.push { outer := some env } }) := by
  rw [exec_letForm]
  cases bindings <;> rfl

/-- The body of a call, in the frame with the arguments `vs`, and that of a `let`, in the frame
`n` that has the same values. -/
theorem same_body (fuel : Nat) {n : Nat} {names : List String} {vs : List Datum} {m m' : Machine}
    (hn : n ≤ m.heap.size) (henv : env < n) (hbody : body.Within n)
    (hvs : ∀ v ∈ vs, v.Within m.heap.size) (hcopied : Copied (shiftFrames n 1) m.heap m'.heap)
    (hframe : m'.heap.frames[n]? =
      some ⟨names.zip (vs.map (Datum.rename (shiftFrames n 1))), some env⟩)
    (trace : Array Event) :
    SameUpToFrames n
      ((eval fuel body m.heap.size).exec
        { heap := m.heap.push { bindings := names.zip vs, outer := some env }, trace })
      ((eval fuel body n).exec m') := by
  let f : Frame := { bindings := names.zip vs, outer := some env }
  have hbindings : ∀ b ∈ f.bindings, b.2.Within m.heap.size :=
    fun b hb => hvs b.2 (List.of_mem_zip hb).2
  have houter : ∀ o, f.outer = some o → o < n := by
    intro o ho
    cases ho
    exact henv
  have hframe' : m'.heap.frames[n]? = some (f.rename (shiftFrames n 1)) := by
    have hshift : (shiftFrames n 1).frame env = env := shift_of_lt henv
    rw [hframe, Frame.rename, Bindings.rename_zip rfl, Option.map_some, hshift]
  have hadopt := hcopied.adopt hn hbindings houter hframe'
  have hfix : ∀ i < n, rotate n m.heap.size i = i := fun i hi =>
    (rotate_of_lt (Nat.lt_of_lt_of_le hi hn)).trans (shift_of_lt hi)
  have hrename : body.rename { frame := rotate n m.heap.size } = body :=
    Datum.rename_of_within rfl hfix hbody
  have hlast : ({ frame := rotate n m.heap.size } : Renaming).frame m.heap.size = n :=
    rotate_last hn
  let called : Machine := { heap := m.heap.push f, trace }
  have hsize : called.heap.size = m.heap.size + 1 := size_push _ _
  have hrun := Copied.exec_eval (m := called) rfl (rotate_injective hn) hadopt fuel
    (hbody.mono (by omega)) (by omega : m.heap.size < called.heap.size)
  rw [hrename, hlast] at hrun
  obtain ⟨hle, hcopied', -, houtcome⟩ := hrun
  refine ⟨rotate n m.heap.size, rotate_injective hn, hfix, houtcome, hcopied'.copied, ?_⟩
  intro v _
  refine (hcopied'.next 0).symm.trans (rotate_of_gt hn ?_)
  omega

/-- The two forms at any depth. -/
theorem same_let_call (fuel : Nat) (hnames : (bindings.map (·.1)).Nodup)
    (hwf : m.heap.WellFormed) (henv : env < m.heap.size)
    (hexprs : ∀ b ∈ bindings, b.2.Within m.heap.size) (hbody : body.Within m.heap.size) :
    SameUpToFrames m.heap.size ((eval fuel (.lambdaCall bindings body) env).exec m)
      ((eval fuel (.letForm bindings body) env).exec m) := by
  let entered : Machine := { m with heap := m.heap.push { outer := some env } }
  have hentered : m.heap.Extends ∅ entered.heap := .push ∅ _ _
  match fuel with
  | 0 => exact sameUpToFrames_of_extends (.refl ∅ _) .tooDeep
  | 1 =>
    rw [exec_letForm_one]
    exact sameUpToFrames_of_extends hentered .tooDeep
  | fuel + 2 =>
    have hcopied : Copied (shiftFrames m.heap.size 1) m.heap entered.heap := by
      simpa [entered, size_push] using Copied.of_extends hwf hentered
    have hframe : entered.heap.frames[m.heap.size]? = some { outer := some env } :=
      frames_push_size _ _
    rw [exec_lambdaCall fuel hnames, exec_letForm, exec_bind, exec_bind]
    -- the procedure that the call makes shows in the trace only
    generalize m.trace.push _ = trace
    have hvalues := bindPairs_follows_each (m := { m with trace }) (fuel + 1) henv
      (Nat.le_refl _) hnames hexprs (fun _ _ => rfl) hcopied hframe
    rcases hrun : (each (eval (fuel + 1)) env (bindings.map (·.2))).exec { m with trace }
      with ⟨o, m₁⟩
    rcases hrun' : (bindPairs (eval (fuel + 1)) env m.heap.size bindings).exec entered
      with ⟨o', m₁'⟩
    rw [hrun, hrun'] at hvalues
    rw [hrun]
    obtain ⟨hsize, hcopied₁, houtcome⟩ := hvalues
    cases houtcome with
    | error hhalt =>
      subst hhalt
      refine ⟨shift m.heap.size 1, shift_injective _ 1, fun i hi => shift_of_lt hi, rfl,
        hcopied₁.copied, by simp⟩
    | ok hvs =>
      obtain ⟨hlength, hwithin, hframe⟩ := hvs
      dsimp only
      rw [exec_apply _ hnames body env hlength]
      exact same_body (fuel + 1) hsize henv hbody hwithin hcopied₁ hframe _

theorem SameUpToFrames.tooDeep_iff {n : Nat} {run run' : Except Halt Datum × Machine}
    (h : SameUpToFrames n run run') : run'.1 = .error .tooDeep ↔ run.1 = .error .tooDeep := by
  obtain ⟨ρ, -, -, houtcome, -⟩ := h
  rw [houtcome]
  cases run.1 <;> simp [Except.map]

/-- **A `let` is the call of a procedure.** With distinct names, `(let ((x e) ...) body)` and
`((lambda (x ...) body) e ...)` both finish or both do not. However deep they may nest, both
have the same value or the same error, and they leave the same bindings in every frame, up
to the numbers of the frames that they make. -/
theorem let_is_call (m : Machine) (env : FrameId) (bindings : List (String × Datum))
    (body : Datum) (hnames : (bindings.map (·.1)).Nodup) (hwf : m.heap.WellFormed)
    (henv : env < m.heap.size) (hexprs : ∀ b ∈ bindings, b.2.Within m.heap.size)
    (hbody : body.Within m.heap.size) :
    (m.Finishes (.letForm bindings body) env ↔ m.Finishes (.lambdaCall bindings body) env) ∧
    ∀ fuel, SameUpToFrames m.heap.size
      ((eval fuel (.lambdaCall bindings body) env).exec m)
      ((eval fuel (.letForm bindings body) env).exec m) := by
  have hsame := fun fuel => same_let_call fuel hnames hwf henv hexprs hbody
  exact ⟨exists_congr fun fuel => not_congr (hsame fuel).tooDeep_iff, hsame⟩

/-- A value that makes a frame and keeps it, and a body that keeps the frame of the names: the
`let` makes them in the other order. -/
theorem let_is_call_kept_frames :
    let m : Machine := { heap := Heap.initial.update 0 (·.assign "z" (.int 1)) }
    let keep (d : Datum) : Datum := .list [.keyword .lambda, .list [], d]
    let bindings : List (String × Datum) :=
      [("x", .int 2), ("f", .list [.list [.keyword .lambda, .list [], keep (.symbol "z")]])]
    let body := keep (.list [.symbol "f"])
    let call := (eval 9 (.lambdaCall bindings body) 0).exec m
    let entered := (eval 9 (.letForm bindings body) 0).exec m
    (bindings.map (·.1)).Nodup ∧ m.heap.WellFormed ∧ (∀ b ∈ bindings, b.2.Within m.heap.size) ∧
      body.Within m.heap.size ∧
      call.1 = .ok (.closure [] (.list [.symbol "f"]) 2) ∧
      entered.1 = .ok (.closure [] (.list [.symbol "f"]) 1) ∧
      SameUpToFrames 1 call entered := by
  intro m keep bindings body call entered
  have hwf : m.heap.WellFormed := wellFormed_initial.assign trivial
  have hexprs : ∀ b ∈ bindings, b.2.Within m.heap.size := by
    simp [bindings, keep, Datum.Within, Datum.EveryClosure, Datum.EveryClosureEach]
  have hbody : body.Within m.heap.size := by
    simp [body, keep, Datum.Within, Datum.EveryClosure, Datum.EveryClosureEach]
  exact ⟨by decide, hwf, hexprs, hbody, rfl, rfl,
    (let_is_call m 0 bindings body (by decide) hwf (by decide) hexprs hbody).2 9⟩

end

end SmallScheme
