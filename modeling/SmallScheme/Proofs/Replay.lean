import Mathlib.Data.Set.Function
import Mathlib.Order.Interval.Set.Defs
import Mathlib.Order.Monotone.Basic
import SmallScheme.Proofs.Copies
import SmallScheme.Proofs.FrameIsolation

/-!
# Calls carry no hidden state

A call made again, in the heap that the first call left, does the same again. The
frames that the second call makes have other numbers, so its outcome is that of the
first call up to a shift of those numbers: the frames from the first call on move up
by as many as that call made.

* **`Heap.shiftSimulation`** — moving the frames from `n` on up by `k` makes a copy that
  evaluation keeps;
* **`Heap.Copied.of_extends`** — a heap with more frames is such a copy;
* **`apply_replays`** — the two calls of one procedure with the same arguments.
-/

namespace SmallScheme

namespace Heap

/-! ## Shifted frame numbers -/

/-- Frame numbers from `n` on move up by `k`. -/
def shift (n k i : Nat) : Nat :=
  if i < n then i else i + k

/-- The renaming of frames alone. -/
def shiftFrames (n k : Nat) : Renaming :=
  { frame := shift n k }

variable {n k i j : Nat} {h h' : Heap}

theorem shift_of_lt (hi : i < n) : shift n k i = i := if_pos hi

theorem shift_of_le (hi : n ≤ i) : shift n k i = i + k := if_neg (Nat.not_lt.mpr hi)

theorem shift_strictMono (n k : Nat) : StrictMono (shift n k) := by
  intro i j hij
  unfold shift
  split <;> split <;> omega

theorem shift_injective (n k : Nat) : Function.Injective (shift n k) :=
  (shift_strictMono n k).injective

/-- A heap that extends a well-formed one is a shifted copy of it: all frames of the smaller
one are below the shift, and they are the same. -/
theorem Copied.of_extends (hw : h.WellFormed) (he : h.Extends ∅ h') :
    Copied (shiftFrames h.size (h'.size - h.size)) h h' := by
  refine ⟨hw, ?_, ?_, ?_⟩
  · intro i hi
    obtain ⟨f, hf⟩ := exists_frame hi
    have hsame : f.rename (shiftFrames h.size (h'.size - h.size)) = f.rename {} := by
      refine hw.rename_congr ?_ ?_ hf
      · rfl
      · exact fun j hj => shift_of_lt hj
    have hold : h'.frames[i]? = h.frames[i]? := he.same i hi (Set.notMem_empty i)
    show h'.frames[shift h.size (h'.size - h.size) i]? = _
    rw [shift_of_lt hi, hold, hf, Option.map_some, hsame, Frame.rename_id]
  · intro i f o hf ho
    exact shift_strictMono _ _ (hw.layered i f o hf ho)
  · intro j
    have hsize := he.size_le
    show shift h.size (h'.size - h.size) (h.size + j) = h'.size + j
    rw [shift_of_le (Nat.le_add_right _ _)]
    omega

/-- Moving frame numbers up is a simulation. -/
def shiftSimulation (n k : Nat) : Simulation :=
  copySimulation (shiftFrames n k) Function.injective_id (shift_injective n k)

/-- Between the frames of a first run and those of a second run of the same length, the shift
is one to one. -/
theorem bijOn_shift {first : Nat} (hn : n ≤ first) :
    Set.BijOn (shift n (first - n)) (Set.Ico n first) (Set.Ico first (first + (first - n))) := by
  refine ⟨?_, ?_, ?_⟩
  · rintro i ⟨hlow, hhigh⟩
    rw [shift_of_le hlow]
    exact ⟨by omega, by omega⟩
  · intro i _ j _ heq
    exact shift_injective n _ heq
  · rintro j ⟨hlow, hhigh⟩
    refine ⟨j - (first - n), ⟨by omega, by omega⟩, ?_⟩
    rw [shift_of_le (by omega)]
    omega

end Heap

/-! ## Calls made twice -/

theorem render_map_rename {r : Renaming} (hname : r.name = id) (o : Except Halt Datum) :
    (o.map (Datum.rename r)).map Datum.render = o.map Datum.render := by
  cases o with
  | error halt => rfl
  | ok v => exact congrArg Except.ok ((Datum.render_rename r v).eq hname).symm

/-- **Calls carry no hidden state.** Call a procedure of a well-formed heap, then call it
again with the same arguments in the heap that the first call left. Up to a renaming of the
frames that the first call made into those that the second one made, the second outcome is
the first (the same error, or the same value, with the same text), the new frames of both
are the same, and neither call changed a frame that was there before. -/
theorem apply_replays (fuel : Nat) (m : Machine) (formals : List Datum) (body : Datum)
    (captured : FrameId) (args : List Datum) (hwf : m.heap.WellFormed)
    (hclosure : (Datum.closure formals body captured).Within m.heap.size)
    (hargs : ∀ v ∈ args, v.Within m.heap.size) :
    let call := Eval.apply (eval fuel) formals body captured args
    let first := call.exec m
    let second := call.exec first.2
    ∃ ρ : FrameId → FrameId,
      (∀ i < m.heap.size, ρ i = i) ∧
      Set.BijOn ρ (Set.Ico m.heap.size first.2.heap.size)
        (Set.Ico first.2.heap.size second.2.heap.size) ∧
      second.1 = first.1.map (Datum.rename { frame := ρ }) ∧
      second.1.map Datum.render = first.1.map Datum.render ∧
      (∀ i < m.heap.size, first.2.heap.frames[i]? = m.heap.frames[i]? ∧
        second.2.heap.frames[i]? = m.heap.frames[i]?) ∧
      (∀ i < first.2.heap.size, second.2.heap.frames[ρ i]? =
        first.2.heap.frames[i]?.map (Frame.rename { frame := ρ })) := by
  intro call first second
  have hcall : ∀ m : Machine, m.heap.Extends ∅ (call.exec m).2.heap :=
    Eval.confined_apply (confined_eval fuel) formals body captured args
  have hfirst : m.heap.Extends ∅ first.2.heap := hcall m
  have hsecond : first.2.heap.Extends ∅ second.2.heap := hcall first.2
  -- The second call is the renamed first one, since nothing in it refers to a new frame.
  let k := first.2.heap.size - m.heap.size
  have hfix : ∀ d : Datum, d.Within m.heap.size → d.rename (Heap.shiftFrames m.heap.size k) = d :=
    fun d hd => Datum.rename_of_within rfl (fun i hi => Heap.shift_of_lt hi) hd
  have hargs' : args.map (Datum.rename (Heap.shiftFrames m.heap.size k)) = args := by
    conv => rhs; rw [← List.map_id args]
    exact List.map_congr_left fun v hv => hfix v (hargs v hv)
  have hclosure' := hfix _ hclosure
  rw [Datum.rename_closure] at hclosure'
  injection hclosure' with hformals hbody hcaptured
  have hreached := Simulation.agree_apply ((Heap.shiftSimulation m.heap.size k).agree_eval fuel)
    hclosure hargs m first.2 (Heap.Copied.of_extends hwf hfirst) (Nat.le_refl _)
  simp only [Simulation.datum, Simulation.frame, Heap.shiftSimulation, Heap.copySimulation,
    hformals, hbody, hcaptured, hargs'] at hreached
  have hrel : Heap.Copied (Heap.shiftFrames m.heap.size k) first.2.heap second.2.heap :=
    hreached.rel
  have hsize : second.2.heap.size = first.2.heap.size + k :=
    (hrel.next 0).symm.trans (Heap.shift_of_le hfirst.size_le)
  have hout : second.1 = first.1.map (Datum.rename (Heap.shiftFrames m.heap.size k)) :=
    eq_map_of_paired rfl hreached.outcome
  refine ⟨Heap.shift m.heap.size k, fun i hi => Heap.shift_of_lt hi, ?_, hout, ?_, ?_, hrel.copied⟩
  · rw [hsize]
    exact Heap.bijOn_shift hfirst.size_le
  · rw [hout]
    exact render_map_rename rfl first.1
  · intro i hi
    have hold := hfirst.same i hi (Set.notMem_empty i)
    have hi' := Nat.lt_of_lt_of_le hi hfirst.size_le
    exact ⟨hold, (hsecond.same i hi' (Set.notMem_empty i)).trans hold⟩

/-- A procedure that returns a procedure of its own new frame: the second call returns one of
another frame, with the same text. -/
theorem apply_replays_procedure_maker :
    let m : Machine := {}
    let formals : List Datum := [.symbol "y"]
    let body : Datum := .list [.keyword .lambda, .list [], .symbol "y"]
    let call := Eval.apply (eval 5) formals body 0 [.int 7]
    let first := call.exec m
    let second := call.exec first.2
    (m.heap.WellFormed ∧ (Datum.closure formals body 0).Within m.heap.size ∧
      ∀ v ∈ [Datum.int 7], v.Within m.heap.size) ∧
    first.1 = .ok (.closure [] (.symbol "y") 1) ∧
    ∃ ρ : FrameId → FrameId, ρ 0 = 0 ∧ second.1 = .ok (.closure [] (.symbol "y") (ρ 1)) ∧
      second.1.map Datum.render = first.1.map Datum.render := by
  intro m formals body call first second
  have hclosure : (Datum.closure formals body 0).Within m.heap.size := by
    simp [Datum.Within, Datum.EveryClosure, Datum.EveryClosureEach, formals, body, m,
      Heap.initial, Heap.size]
  have hargs : ∀ v ∈ [Datum.int 7], v.Within m.heap.size := by
    simp [Datum.Within, Datum.EveryClosure]
  obtain ⟨ρ, hold, -, hout, htext, -⟩ :=
    apply_replays 5 m formals body 0 [.int 7] Heap.wellFormed_initial hclosure hargs
  exact ⟨⟨Heap.wellFormed_initial, hclosure, hargs⟩, rfl, ρ, hold 0 (by decide), hout, htext⟩

end SmallScheme
