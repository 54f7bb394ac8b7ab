import Mathlib.Data.List.Find
import SmallScheme.Proofs.Scope
import SmallScheme.Proofs.Simulation

/-!
# Renamed copies of a heap

A heap may stand in another one under other names and other numbers of frames, beside
frames of which it knows nothing. Looking up, writing and making frames then do the same
in both.

* **`Copies`** — each frame of a heap has a renamed copy in another; `lookup_paired`,
  `update` and `push` say what the operations on heaps make of that;
* **`Copied`** — the same for a well-formed heap, with what it takes for chains of outer
  frames and for new frames to correspond;
* **`copySimulation`** — so evaluation in the copy is the renamed evaluation.
-/

namespace SmallScheme

namespace Heap

variable {r : Renaming} {h h' : Heap} {i : FrameId}

/-! ## Copies of frames -/

/-- Each frame of `h` has a renamed copy in `h'`. -/
def Copies (r : Renaming) (h h' : Heap) : Prop :=
  ∀ i < h.size, h'.frames[r.frame i]? = h.frames[i]?.map (Frame.rename r)

namespace Copies

theorem frame (hc : Copies r h h') {f : Frame} (hf : h.frames[i]? = some f) :
    h'.frames[r.frame i]? = some (f.rename r) := by
  rw [hc i (lt_size_of_frame hf), hf]
  rfl

theorem lt_size (hc : Copies r h h') (hi : i < h.size) : r.frame i < h'.size := by
  obtain ⟨f, hf⟩ := exists_frame hi
  exact lt_size_of_frame (hc.frame hf)

theorem bindings_eq (hc : Copies r h h') (hi : i < h.size) :
    h'.bindings (r.frame i) = (h.bindings i).rename r := by
  obtain ⟨f, hf⟩ := exists_frame hi
  rw [bindings_of_frame hf, bindings_of_frame (hc.frame hf)]
  rfl

theorem find?_eq (hc : Copies r h h') (hname : Function.Injective r.name)
    (hchain : h'.chain (r.frame i) = (h.chain i).map r.frame) (x : String) :
    h'.find? (r.frame i) (r.name x) = (h.find? i x).map r.frame := by
  unfold find?
  rw [hchain, List.find?_map]
  congr 1
  refine List.find?_congr fun j hj => ?_
  rw [Function.comp_apply, hc.bindings_eq (lt_size_of_mem_chainFrom _ hj)]
  exact Bindings.has_rename hname _ x

/-- What is found along corresponding chains corresponds. -/
theorem lookup_paired (hc : Copies r h h') (hname : Function.Injective r.name)
    (hchain : h'.chain (r.frame i) = (h.chain i).map r.frame) (x : String) :
    Paired (Error.Alike r) (fun v v' => h.lookup i x = .ok v ∧ v' = v.rename r)
      (h.lookup i x) (h'.lookup (r.frame i) (r.name x)) := by
  have hunbound : Error.Alike r (.unbound x) (.unbound (r.name x)) :=
    ⟨rfl, fun hid => by rw [hid]; rfl⟩
  have hplaceholder : Error.Alike r (.usedBeforeDefined x) (.usedBeforeDefined (r.name x)) :=
    ⟨rfl, fun hid => by rw [hid]; rfl⟩
  unfold lookup
  rw [hc.find?_eq hname hchain x]
  cases hfind : h.find? i x with
  | none => exact .error hunbound
  | some j =>
    have hj : j < h.size := lt_size_of_mem_chainFrom _ (List.mem_of_find?_eq_some hfind)
    have hget : (h'.bindings (r.frame j)).get? (r.name x) =
        ((h.bindings j).get? x).map (Datum.rename r) := by
      rw [hc.bindings_eq hj]
      exact Bindings.get?_rename hname _ x
    simp only [Option.map_some, hget]
    cases (h.bindings j).get? x with
    | none => exact .error hunbound
    | some v =>
      cases v with
      | unassigned => exact .error hplaceholder
      | _ => exact .ok ⟨rfl, rfl⟩

/-- Changing a frame and its copy in corresponding ways. -/
theorem update (hc : Copies r h h') (hframe : Function.Injective r.frame) (i : FrameId)
    {u u' : Frame → Frame} (hu : ∀ f, (u f).rename r = u' (f.rename r)) :
    Copies r (h.update i u) (h'.update (r.frame i) u') := by
  intro j hj
  rw [size_update] at hj
  by_cases hji : j = i
  · subst hji
    rw [frames_update_self, frames_update_self, hc j hj, Option.map_map, Option.map_map]
    congr 1
    funext f
    exact (hu f).symm
  · rw [frames_update_ne h u hji, frames_update_ne h' u' (hframe.ne hji), hc j hj]

/-- Adding a frame to both heaps, under corresponding numbers. -/
theorem push (hc : Copies r h h') (hnext : r.frame h.size = h'.size) {f f' : Frame}
    (hf : f' = f.rename r) : Copies r (h.push f) (h'.push f') := by
  intro j hj
  rw [size_push] at hj
  -- an old frame, or the new one, which is the last in both heaps
  rcases Nat.lt_or_eq_of_le (Nat.le_of_lt_succ hj) with hlt | rfl
  · rw [frames_push_of_lt _ _ hlt, frames_push_of_lt _ _ (hc.lt_size hlt), hc j hlt]
  · rw [hnext, frames_push_size, frames_push_size, hf]
    rfl

end Copies

/-! ## Copies of well-formed heaps -/

/-- `h'` has a renamed copy of each frame of the well-formed heap `h`. -/
structure Copied (r : Renaming) (h h' : Heap) : Prop where
  wellFormed : h.WellFormed
  copied : Copies r h h'
  /-- Outer frames are older in the copy as well. -/
  older : ∀ (i : FrameId) (f : Frame) (o : FrameId), h.frames[i]? = some f → f.outer = some o →
    r.frame o < r.frame i
  /-- Frames that are made in both heaps from now on correspond. -/
  next : ∀ k, r.frame (h.size + k) = h'.size + k

namespace Copied

/-- Chains correspond. The fuel of the two walks differs, but outer frames are older, so
either has enough. -/
theorem chainFrom_eq (hc : Copied r h h') :
    ∀ fuel fuel' i : Nat, i < fuel → r.frame i < fuel' → i < h.size →
      h'.chainFrom fuel' (r.frame i) = (h.chainFrom fuel i).map r.frame := by
  intro fuel
  induction fuel with
  | zero => intro fuel' i hi; exact absurd hi (Nat.not_lt_zero i)
  | succ fuel ih =>
    intro fuel' i hi hi' hsize
    obtain ⟨g, rfl⟩ : ∃ g, fuel' = g + 1 := Nat.exists_eq_add_one.mpr (Nat.zero_lt_of_lt hi')
    obtain ⟨f, hf⟩ := exists_frame hsize
    rw [chainFrom, chainFrom, hf, hc.copied.frame hf]
    cases ho : f.outer with
    | none => simp [Frame.rename, ho]
    | some o =>
      -- the layers bound both chains: the outer frame has a smaller number in either heap
      have hlt : o < i := hc.wellFormed.layered i f o hf ho
      have hlt' : r.frame o < r.frame i := hc.older i f o hf ho
      have hrest := ih g o (Nat.lt_of_lt_of_le hlt (Nat.le_of_lt_succ hi))
        (Nat.lt_of_lt_of_le hlt' (Nat.le_of_lt_succ hi')) (Nat.lt_trans hlt hsize)
      simp [Frame.rename, ho, hrest]

theorem chain_eq (hc : Copied r h h') (hi : i < h.size) :
    h'.chain (r.frame i) = (h.chain i).map r.frame :=
  hc.chainFrom_eq (i + 1) _ i (Nat.lt_succ_self i) (Nat.lt_succ_self _) hi

/-- Changing a frame and its copy, their outer frames apart. -/
theorem update (hc : Copied r h h') (hframe : Function.Injective r.frame) {u u' : Frame → Frame}
    (hwf : (h.update i u).WellFormed) (hu : ∀ f, (u f).rename r = u' (f.rename r))
    (houter : ∀ f, (u f).outer = f.outer) :
    Copied r (h.update i u) (h'.update (r.frame i) u') := by
  refine ⟨hwf, hc.copied.update hframe i hu, ?_, ?_⟩
  · intro j g o hg ho
    obtain ⟨g₀, hg₀, rfl | rfl⟩ := frame_update hg
    · exact hc.older j g o hg₀ ho
    · exact hc.older j g₀ o hg₀ (by rw [← houter g₀, ho])
  · intro k
    rw [size_update, size_update]
    exact hc.next k

/-- Changing a frame that is a copy of none. -/
theorem update_other (hc : Copied r h h') {j : FrameId} (hj : ∀ i < h.size, r.frame i ≠ j)
    (u : Frame → Frame) : Copied r h (h'.update j u) := by
  refine ⟨hc.wellFormed, ?_, hc.older, ?_⟩
  · intro i hi
    rw [frames_update_ne h' u (hj i hi)]
    exact hc.copied i hi
  · intro k
    rw [size_update]
    exact hc.next k

theorem push (hc : Copied r h h') (hi : i < h.size) :
    Copied r (h.push { outer := some i }) (h'.push { outer := some (r.frame i) }) := by
  have hsize : r.frame h.size = h'.size := hc.next 0
  refine ⟨hc.wellFormed.push hi, hc.copied.push hsize rfl, ?_, ?_⟩
  · intro j g o hg ho
    rcases frame_push hg with hg | ⟨rfl, rfl⟩
    · exact hc.older j g o hg ho
    · obtain rfl : i = o := Option.some.inj ho
      rw [hsize]
      exact hc.copied.lt_size hi
  · intro k
    rw [size_push, size_push, Nat.add_assoc, hc.next, Nat.add_assoc]

end Copied

/-- A renamed copy is simulated, if different names and frames stay different. -/
def copySimulation (r : Renaming) (hname : Function.Injective r.name)
    (hframe : Function.Injective r.frame) : Simulation where
  map := r
  rel := Copied r
  ok := Datum.Within
  live n i := i < n
  name_injective := hname
  ok_mono hn hd := hd.mono hn
  live_mono hn hi := Nat.lt_of_lt_of_le hi hn
  ok_number _ _ := trivial
  ok_bool _ _ := trivial
  ok_nil _ := trivial
  ok_list := Datum.everyClosure_list _
  ok_closure names _ hbody hlive := by
    refine (Datum.everyClosure_closure _ _ _).mpr ⟨hlive, ?_, hbody⟩
    intro d hd
    obtain ⟨x, _, rfl⟩ := List.mem_map.mp hd
    trivial
  ok_call hclosure := by
    obtain ⟨hlive, -, hbody⟩ := (Datum.everyClosure_closure _ _ _).mp hclosure
    exact ⟨hbody, hlive⟩
  lookup x hc hi :=
    (hc.copied.lookup_paired hname (hc.chain_eq hi) x).imp fun _ _ hv =>
      ⟨hc.wellFormed.within.lookup hv.1, hv.2⟩
  declare x hc _ :=
    hc.update hframe (hc.wellFormed.declare x) (fun f => f.rename_declare hname x)
      fun f => f.outer_declare x
  assign {h h' i v} x hc _ hv :=
    hc.update hframe (hc.wellFormed.assign hv) (fun f => f.rename_assign hname x v) fun _ => rfl
  child hc hi := ⟨Nat.lt_succ_self _, (hc.next 0).symm, hc.push hi⟩

/-- Evaluation in a copy with other frames is the renamed evaluation: it leaves a copy again,
and its outcome is the renamed one. -/
theorem Copied.exec_eval (hname : r.name = id) (hframe : Function.Injective r.frame)
    {m m' : Machine} (hc : Copied r m.heap m'.heap) (fuel : Nat) {e : Datum} {env : FrameId}
    (he : e.Within m.heap.size) (henv : env < m.heap.size) :
    let run := (eval fuel e env).exec m
    let run' := (eval fuel (e.rename r) (r.frame env)).exec m'
    m.heap.size ≤ run.2.heap.size ∧ Copied r run.2.heap run'.2.heap ∧
      (∀ v, run.1 = .ok v → v.Within run.2.heap.size) ∧ run'.1 = run.1.map (Datum.rename r) := by
  intro run run'
  let S := copySimulation r (by rw [hname]; exact Function.injective_id) hframe
  have hreached : S.Reached S.Value m run run' :=
    (S.agree_eval fuel).agree he henv m m' hc (Nat.le_refl _)
  refine ⟨hreached.size_le, hreached.rel, ?_, eq_map_of_paired hname hreached.outcome⟩
  intro v hv
  have hpaired := hreached.outcome
  rw [hv] at hpaired
  generalize run'.1 = o at hpaired
  cases hpaired with
  | ok hvalue => exact hvalue.ok

end Heap

end SmallScheme
