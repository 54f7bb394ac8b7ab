import SmallScheme.Proofs.Datum
import SmallScheme.Proofs.Machine

/-!
# Scopes: renamed frames and well-formed heaps

Bindings and frames under a renaming, and what it takes for a heap to be well
formed: outer frames are older than the frames inside them (`Layered`), and every
value satisfies a condition (`Holds`). Each operation on heaps keeps both.
-/

namespace SmallScheme

/-! ## Bindings -/

namespace Bindings

variable {r : Renaming} {x : String} {v : Datum}

/-- Rename the names and the values of bindings. -/
def rename (r : Renaming) (bs : Bindings) : Bindings :=
  bs.map fun b => (r.name b.1, b.2.rename r)

theorem has_rename (hr : Function.Injective r.name) (bs : Bindings) (x : String) :
    (bs.rename r).has (r.name x) = bs.has x := by
  simp only [has, rename, List.any_map, Function.comp_def, hr.eq_iff]

theorem get?_rename (hr : Function.Injective r.name) (bs : Bindings) (x : String) :
    (bs.rename r).get? (r.name x) = (bs.get? x).map (Datum.rename r) := by
  simp only [get?, rename, List.find?_map, Function.comp_def, hr.eq_iff, Option.map_map]

theorem rename_put (hr : Function.Injective r.name) (bs : Bindings) (x : String) (v : Datum) :
    (bs.put x v).rename r = (bs.rename r).put (r.name x) (v.rename r) := by
  induction bs with
  | nil => rfl
  | cons b bs ih =>
    obtain ⟨y, w⟩ := b
    by_cases hyx : y = x
    · simp [put, rename, hyx]
    · have hne : r.name y ≠ r.name x := fun h => hyx (hr h)
      simp only [rename] at ih
      simp [put, rename, hyx, hne, ih]

theorem mem_put {bs : Bindings} {b : String × Datum} (hb : b ∈ bs.put x v) :
    b = (x, v) ∨ b ∈ bs := by
  induction bs with
  | nil => exact .inl (List.mem_singleton.mp hb)
  | cons c bs ih =>
    obtain ⟨y, w⟩ := c
    rw [put] at hb
    split at hb
    · rcases List.mem_cons.mp hb with rfl | hb
      · exact .inl rfl
      · exact .inr (List.mem_cons_of_mem _ hb)
    · rcases List.mem_cons.mp hb with rfl | hb
      · exact .inr List.mem_cons_self
      · exact (ih hb).imp id (List.mem_cons_of_mem _)

theorem mem_of_get? {bs : Bindings} (h : bs.get? x = some v) : (x, v) ∈ bs := by
  obtain ⟨b, hb, rfl⟩ := Option.map_eq_some_iff.mp h
  have hx : b.1 = x := by simpa using List.find?_some hb
  rw [← hx]
  exact List.mem_of_find?_eq_some hb

end Bindings

/-! ## Frames -/

namespace Frame

variable {r : Renaming}

/-- Rename the bindings and the outer frame of a frame. -/
def rename (r : Renaming) (f : Frame) : Frame :=
  { bindings := f.bindings.rename r, outer := f.outer.map r.frame }

theorem rename_assign (hr : Function.Injective r.name) (f : Frame) (x : String) (v : Datum) :
    (f.assign x v).rename r = (f.rename r).assign (r.name x) (v.rename r) := by
  simp only [assign, rename, Bindings.rename_put hr]

theorem rename_declare (hr : Function.Injective r.name) (f : Frame) (x : String) :
    (f.declare x).rename r = (f.rename r).declare (r.name x) := by
  unfold declare
  rw [show (f.rename r).bindings = f.bindings.rename r from rfl, Bindings.has_rename hr]
  split
  · rfl
  · exact rename_assign hr f x .unassigned

/-- Renamings that agree below `n` rename a frame alike whose procedures and outer frame are
below `n`. -/
theorem rename_congr {r' : Renaming} {n : Nat} (hname : r.name = r'.name)
    (hframe : ∀ i < n, r.frame i = r'.frame i) {f : Frame}
    (hbindings : ∀ b ∈ f.bindings, b.2.Within n) (houter : ∀ o, f.outer = some o → o < n) :
    f.rename r = f.rename r' := by
  have hsame : f.bindings.rename r = f.bindings.rename r' := by
    refine List.map_congr_left fun b hb => ?_
    have hvalue : b.2.rename r = b.2.rename r' :=
      Datum.rename_congr hname
        (Datum.EveryClosure.mono (fun _ _ i hi => hframe i hi) (hbindings b hb))
    rw [hname, hvalue]
  have hsame' : f.outer.map r.frame = f.outer.map r'.frame := by
    cases ho : f.outer with
    | none => rfl
    | some o => rw [Option.map_some, Option.map_some, hframe o (houter o ho)]
  rw [rename, rename, hsame, hsame']

theorem rename_id (f : Frame) : f.rename {} = f := by
  have hbindings : f.bindings.rename {} = f.bindings := by
    unfold Bindings.rename
    simp only [Datum.rename_id]
    exact List.map_id f.bindings
  have houter : f.outer.map ({} : Renaming).frame = f.outer := Option.map_id'
  rw [rename, hbindings, houter]

theorem mem_declare {f : Frame} {x : String} {b : String × Datum}
    (hb : b ∈ (f.declare x).bindings) : b = (x, .unassigned) ∨ b ∈ f.bindings := by
  unfold declare at hb
  split at hb
  · exact .inr hb
  · exact Bindings.mem_put hb

theorem outer_declare (f : Frame) (x : String) : (f.declare x).outer = f.outer := by
  unfold declare
  split <;> rfl

end Frame

/-! ## Well-formed heaps -/

namespace Heap

variable {h : Heap} {i : FrameId}

/-- A frame of an updated heap is an old frame, or the one that was updated. -/
theorem frame_update {f : Frame → Frame} {j : FrameId} {g : Frame}
    (hg : (h.update i f).frames[j]? = some g) :
    ∃ g₀, h.frames[j]? = some g₀ ∧ (g = g₀ ∨ g = f g₀) := by
  by_cases hji : j = i
  · subst hji
    rw [frames_update_self] at hg
    obtain ⟨g₀, hg₀, rfl⟩ := Option.map_eq_some_iff.mp hg
    exact ⟨g₀, hg₀, .inr rfl⟩
  · rw [frames_update_ne h f hji] at hg
    exact ⟨g, hg, .inl rfl⟩

/-- A frame of a heap with one frame more is an old frame or the new one. -/
theorem frame_push {f : Frame} {j : FrameId} {g : Frame} (hg : (h.push f).frames[j]? = some g) :
    h.frames[j]? = some g ∨ (j = h.size ∧ g = f) := by
  have hj := lt_size_of_frame hg
  rw [size_push] at hj
  rcases Nat.lt_or_eq_of_le (Nat.le_of_lt_succ hj) with hlt | heq
  · rw [frames_push_of_lt h f hlt] at hg
    exact .inl hg
  · subst heq
    rw [frames_push_size] at hg
    exact .inr ⟨rfl, (Option.some.inj hg).symm⟩

/-- Every outer frame is older than the frame inside it. -/
def Layered (h : Heap) : Prop :=
  ∀ (i : FrameId) (f : Frame) (o : FrameId), h.frames[i]? = some f → f.outer = some o → o < i

theorem Layered.update (hl : h.Layered) {f : Frame → Frame} (hf : ∀ g, (f g).outer = g.outer) :
    (h.update i f).Layered := by
  intro j g o hg ho
  obtain ⟨g₀, hg₀, rfl | rfl⟩ := frame_update hg
  · exact hl j g o hg₀ ho
  · exact hl j g₀ o hg₀ (by rw [← hf g₀, ho])

theorem Layered.pushFrame (hl : h.Layered) {f : Frame} (hf : ∀ o, f.outer = some o → o < h.size) :
    (h.push f).Layered := by
  intro j g o hg ho
  rcases frame_push hg with hg | ⟨rfl, rfl⟩
  · exact hl j g o hg ho
  · exact hf o ho

theorem Layered.push (hl : h.Layered) (hi : i < h.size) : (h.push { outer := some i }).Layered := by
  refine hl.pushFrame fun o ho => ?_
  cases ho
  exact hi

/-- Every value bound in the heap satisfies `ok`, for the number of frames there are. -/
def Holds (ok : Nat → Datum → Prop) (h : Heap) : Prop :=
  ∀ (i : FrameId) (f : Frame), h.frames[i]? = some f → ∀ b ∈ f.bindings, ok h.size b.2

variable {ok : Nat → Datum → Prop}

theorem Holds.assign (hh : h.Holds ok) {x : String} {v : Datum} (hv : ok h.size v) :
    (h.update i (·.assign x v)).Holds ok := by
  intro j g hg b hb
  rw [size_update]
  obtain ⟨g₀, hg₀, rfl | rfl⟩ := frame_update hg
  · exact hh j g hg₀ b hb
  · rcases Bindings.mem_put hb with rfl | hb
    · exact hv
    · exact hh j g₀ hg₀ b hb

theorem Holds.declare (hh : h.Holds ok) {x : String} (hun : ok h.size .unassigned) :
    (h.update i (·.declare x)).Holds ok := by
  intro j g hg b hb
  rw [size_update]
  obtain ⟨g₀, hg₀, rfl | rfl⟩ := frame_update hg
  · exact hh j g hg₀ b hb
  · rcases Frame.mem_declare hb with rfl | hb
    · exact hun
    · exact hh j g₀ hg₀ b hb

theorem Holds.pushFrame (hh : h.Holds ok) (hmono : ∀ {n n' d}, n ≤ n' → ok n d → ok n' d)
    {f : Frame} (hf : ∀ b ∈ f.bindings, ok h.size b.2) : (h.push f).Holds ok := by
  intro j g hg b hb
  rw [size_push]
  rcases frame_push hg with hg | ⟨-, rfl⟩
  · exact hmono (Nat.le_succ _) (hh j g hg b hb)
  · exact hmono (Nat.le_succ _) (hf b hb)

theorem Holds.push (hh : h.Holds ok) (hmono : ∀ {n n' d}, n ≤ n' → ok n d → ok n' d)
    (outer : Option FrameId) : (h.push { outer }).Holds ok :=
  hh.pushFrame hmono fun _ hb => absurd hb List.not_mem_nil

/-- Outer frames are older, and every procedure in a value was made in a frame of the heap. -/
structure WellFormed (h : Heap) : Prop where
  layered : h.Layered
  within : h.Holds Datum.Within

theorem frame_initial {i : FrameId} {f : Frame} (hf : initial.frames[i]? = some f) : f = {} := by
  rcases frame_push (h := { frames := #[] }) (f := {}) hf with hf | ⟨-, rfl⟩
  · exact absurd hf (by simp)
  · rfl

theorem holds_initial (ok : Nat → Datum → Prop) : initial.Holds ok := by
  intro i f hf b hb
  rw [frame_initial hf] at hb
  exact absurd hb List.not_mem_nil

theorem wellFormed_initial : initial.WellFormed := by
  refine ⟨?_, holds_initial _⟩
  intro i f o hf ho
  rw [frame_initial hf] at ho
  cases ho

theorem WellFormed.assign (hw : h.WellFormed) {x : String} {v : Datum} (hv : v.Within h.size) :
    (h.update i (·.assign x v)).WellFormed :=
  ⟨hw.layered.update fun _ => rfl, hw.within.assign hv⟩

theorem WellFormed.declare (hw : h.WellFormed) (x : String) :
    (h.update i (·.declare x)).WellFormed :=
  ⟨hw.layered.update fun g => g.outer_declare x, hw.within.declare trivial⟩

theorem WellFormed.pushFrame (hw : h.WellFormed) {f : Frame}
    (houter : ∀ o, f.outer = some o → o < h.size)
    (hbindings : ∀ b ∈ f.bindings, b.2.Within h.size) : (h.push f).WellFormed :=
  ⟨hw.layered.pushFrame houter, hw.within.pushFrame (fun hn hd => hd.mono hn) hbindings⟩

theorem WellFormed.push (hw : h.WellFormed) (hi : i < h.size) :
    (h.push { outer := some i }).WellFormed :=
  ⟨hw.layered.push hi, hw.within.push (fun hn hd => hd.mono hn) (some i)⟩

/-- Renamings that agree on the frames of a well-formed heap rename each of them alike. -/
theorem WellFormed.rename_congr (hw : h.WellFormed) {r r' : Renaming} (hname : r.name = r'.name)
    (hframe : ∀ i < h.size, r.frame i = r'.frame i) {f : Frame} (hf : h.frames[i]? = some f) :
    f.rename r = f.rename r' := by
  refine Frame.rename_congr hname hframe (hw.within i f hf) fun o ho => ?_
  exact Nat.lt_trans (hw.layered i f o hf ho) (lt_size_of_frame hf)

/-! ## Chains -/

theorem bindings_of_frame {f : Frame} (hf : h.frames[i]? = some f) : h.bindings i = f.bindings := by
  rw [bindings, hf]
  rfl

/-- The frames of a chain are frames of the heap. -/
theorem lt_size_of_mem_chainFrom (fuel : Nat) {i j : FrameId} (hj : j ∈ h.chainFrom fuel i) :
    j < h.size := by
  induction fuel generalizing i with
  | zero => exact absurd hj List.not_mem_nil
  | succ fuel ih =>
    rw [chainFrom] at hj
    cases hf : h.frames[i]? with
    | none => rw [hf] at hj; exact absurd hj List.not_mem_nil
    | some f =>
      simp only [hf] at hj
      rcases List.mem_cons.mp hj with rfl | hj
      · exact lt_size_of_frame hf
      · cases ho : f.outer with
        | none => rw [ho] at hj; exact absurd hj List.not_mem_nil
        | some o => rw [ho] at hj; exact ih hj

/-- Looking up finds values that satisfy what all values do. -/
theorem Holds.lookup (hh : h.Holds ok) {x : String} {v : Datum} (hv : h.lookup i x = .ok v) :
    ok h.size v := by
  unfold Heap.lookup at hv
  split at hv
  · cases hv
  · rename_i j hj
    split at hv
    · cases hv
    · cases hv
    · rename_i hget
      cases hv
      have hlt := lt_size_of_mem_chainFrom _ (List.mem_of_find?_eq_some hj)
      obtain ⟨f, hf⟩ := exists_frame hlt
      rw [bindings_of_frame hf] at hget
      exact hh j f hf (x, v) (Bindings.mem_of_get? hget)

end Heap

end SmallScheme
