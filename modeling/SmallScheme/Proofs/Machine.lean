import SmallScheme.Eval.Basic

/-!
# Heaps and runs

What the primitive operations do to a heap, frame by frame, and what running a
computation of the machine yields: `exec` runs it from a machine, and each
primitive on the heap has one equation that says where it leads. `Machine.Finishes`
leaves the bound on the depth out of account.
-/

namespace SmallScheme

namespace Heap

@[simp] theorem size_update (h : Heap) (i : FrameId) (f : Frame → Frame) :
    (h.update i f).size = h.size := by
  simp [size, update]

@[simp] theorem size_push (h : Heap) (f : Frame) : (h.push f).size = h.size + 1 := by
  simp [size, push]

theorem frames_update_self (h : Heap) (i : FrameId) (f : Frame → Frame) :
    (h.update i f).frames[i]? = h.frames[i]?.map f := by
  simp [update, Array.getElem?_modify]

theorem frames_update_ne (h : Heap) {i j : FrameId} (f : Frame → Frame) (hne : j ≠ i) :
    (h.update i f).frames[j]? = h.frames[j]? := by
  simp [update, Array.getElem?_modify, hne.symm]

theorem frames_push_of_lt (h : Heap) (f : Frame) {i : FrameId} (hi : i < h.size) :
    (h.push f).frames[i]? = h.frames[i]? := by
  have hne : i ≠ h.frames.size := Nat.ne_of_lt hi
  rw [push, Array.getElem?_push, if_neg hne]

theorem frames_push_size (h : Heap) (f : Frame) : (h.push f).frames[h.size]? = some f := by
  simp [push, size]

theorem lt_size_of_frame {h : Heap} {i : FrameId} {f : Frame} (hf : h.frames[i]? = some f) :
    i < h.size := by
  rw [Array.getElem?_eq_some_iff] at hf
  exact hf.1

theorem exists_frame {h : Heap} {i : FrameId} (hi : i < h.size) : ∃ f, h.frames[i]? = some f :=
  ⟨_, Array.getElem?_eq_getElem hi⟩

end Heap

namespace Eval

variable {α β : Type}

/-- Run a computation: its outcome, and the machine that it leaves. -/
def exec (c : Eval α) (m : Machine) : Except Halt α × Machine :=
  c.run.run m

/-- A sequence runs its second part where the first one ended, unless that halted. -/
theorem exec_bind (c : Eval α) (f : α → Eval β) (m : Machine) :
    (c >>= f).exec m = match c.exec m with
      | (.ok a, m') => (f a).exec m'
      | (.error halt, m') => (.error halt, m') := by
  unfold exec
  rw [ExceptT.run_bind, StateT.run_bind]
  rcases c.run.run m with ⟨_ | _, _⟩
  · rfl
  · rfl

theorem exec_lookup (env : FrameId) (x : String) (m : Machine) :
    (lookup env x).exec m = (ofError (m.heap.lookup env x)).exec m := rfl

theorem exec_declare (env : FrameId) (x : String) (m : Machine) :
    (declare env x).exec m =
      (.ok (), { m with heap := m.heap.update env (·.declare x) }) := rfl

theorem exec_assign (env : FrameId) (x : String) (v : Datum) (m : Machine) :
    (assign env x v).exec m =
      (.ok (), { m with heap := m.heap.update env (·.assign x v) }) := rfl

theorem exec_child (env : FrameId) (m : Machine) :
    (child env).exec m =
      (.ok m.heap.size, { m with heap := m.heap.push { outer := some env } }) := rfl

end Eval

/-- Evaluation of an expression in a frame comes to an end, with a value or with an error, if
it may nest deep enough. -/
def Machine.Finishes (m : Machine) (e : Datum) (env : FrameId) : Prop :=
  ∃ fuel, ((eval fuel e env).exec m).1 ≠ .error .tooDeep

end SmallScheme
