import SmallScheme.Proofs.Placeholders
import SmallScheme.Proofs.ReachableHeaps

/-!
# Scopes and their history

Frames are made, names are introduced and bound, in any order and in any frames. What a
name stands for in the end can be told from the list of actions alone, without a heap:

* **`History.outers`**, **`History.Named`**, **`History.values`** — the frames that were made,
  where a name was introduced or bound, and the values it was bound to;
* **`History.Nearest`** — the nearest frame, from a frame outwards, in which a name was
  introduced or bound;
* **`History.Records`** — a heap holds what a history says, which every action keeps up
  (`History.Records.after`).

Main statement: `scope_refines_history`.
-/

namespace SmallScheme

/-- What can be done with frames. Any datum can be given as a name; a value is never the
placeholder. -/
inductive ScopeAction where
  /-- Make a frame without an outer one. -/
  | outermost
  /-- Make a frame inside another one. -/
  | child (outer : FrameId)
  /-- Bind a name in a frame. -/
  | assign (frame : FrameId) (name value : Datum) (proper : value ≠ .unassigned)
  /-- Introduce a name in a frame ahead of its value. -/
  | declare (frame : FrameId) (name : Datum)

namespace ScopeAction

/-- The frame that an action needs to be there. -/
def frame? : ScopeAction → Option FrameId
  | .outermost => none
  | .child outer => some outer
  | .assign frame .. => some frame
  | .declare frame _ => some frame

/-- The name that an action is given. -/
def name? : ScopeAction → Option Datum
  | .assign _ name .. => some name
  | .declare _ name => some name
  | _ => none

/-- The outer frame of the frame that an action makes. -/
def made? : ScopeAction → Option (Option FrameId)
  | .outermost => some none
  | .child outer => some (some outer)
  | _ => none

/-- The value that an action binds a name to in a frame. -/
def value? (i : FrameId) (x : String) : ScopeAction → Option Datum
  | .assign frame name value _ => if frame = i ∧ name.symbol? = some x then some value else none
  | _ => none

/-- Whether an action introduces or binds a name in a frame. -/
def names (i : FrameId) (x : String) (a : ScopeAction) : Bool :=
  match a with
  | .outermost | .child _ => false
  | .assign frame name .. => frame = i ∧ name.symbol? = some x
  | .declare frame name => frame = i ∧ name.symbol? = some x

/-- Do something with the frames of a heap. -/
def perform (h : Heap) : ScopeAction → Except Fault Heap
  | .outermost => .ok (h.push {})
  | .child outer => .ok (h.push { outer := some outer })
  | .assign frame name value _ => h.assign frame name value
  | .declare frame name => h.declare frame name

theorem names_of_value? {i : FrameId} {x : String} {a : ScopeAction} {v : Datum}
    (h : a.value? i x = some v) : a.names i x = true ∧ v ≠ .unassigned := by
  cases a with
  | assign frame name value proper =>
    simp only [value?, Option.ite_none_right_eq_some, Option.some.injEq] at h
    obtain ⟨hnamed, rfl⟩ := h
    exact ⟨by simpa [names] using hnamed, proper⟩
  | _ => cases h

theorem frame?_of_names {i : FrameId} {x : String} {a : ScopeAction} (h : a.names i x = true) :
    a.frame? = some i := by
  cases a with
  | assign frame name value proper =>
    obtain ⟨rfl, -⟩ : frame = i ∧ name.symbol? = some x := by simpa [names] using h
    rfl
  | declare frame name =>
    obtain ⟨rfl, -⟩ : frame = i ∧ name.symbol? = some x := by simpa [names] using h
    rfl
  | _ => cases h

end ScopeAction

/-- The heap after an action. One that fails changes nothing. -/
def Heap.after (h : Heap) (a : ScopeAction) : Heap :=
  match a.perform h with
  | .ok h' => h'
  | .error _ => h

/-! ## Failing actions -/

/-- Only symbols are names: anything else is refused with a type error that quotes it, if its
text can be written at all. -/
theorem Heap.bindableName_of_other {name : Datum} (h : name.symbol? = none) :
    ∃ fault, Heap.bindableName name = .error fault ∧
      ((∃ text, name.describe = .ok text ∧ fault = .error (.notBindable text)) ∨
        ∃ n large, name.describe = .error (.written n large) ∧
          fault = .oversized (.written n large)) := by
  unfold Heap.bindableName
  rw [h]
  cases hdescribe : name.describe with
  | ok text => exact ⟨_, rfl, .inl ⟨text, rfl, rfl⟩⟩
  | error o =>
    cases o with
    | literal digits large => exact (Datum.isWritten_of_describe hdescribe).elim
    | written n large => exact ⟨_, rfl, .inr ⟨n, large, rfl, rfl⟩⟩

theorem Heap.bindableName_of_large {n : Int} (large : Nat.pow 10 digitLimit ≤ n.natAbs) :
    Heap.bindableName (.int n) = .error (.oversized (.written n large)) := by
  have htext : Datum.describe (.int n) = .error (.written n large) := by
    show Number.intText n = _
    rw [Number.intText, dif_neg (Nat.not_lt.mpr large)]
  unfold Heap.bindableName
  rw [htext]
  rfl

theorem ScopeAction.perform_of_other (h : Heap) {a : ScopeAction} {name : Datum}
    (hname : a.name? = some name) {fault : Fault} (hfault : Heap.bindableName name = .error fault) :
    a.perform h = .error fault := by
  cases a with
  | outermost | child => cases hname
  | assign frame _ value _ =>
    cases hname
    rw [perform, Heap.assign, hfault]
    rfl
  | declare frame _ =>
    cases hname
    rw [perform, Heap.declare, hfault]
    rfl

theorem Heap.after_of_error {h : Heap} {a : ScopeAction} {fault : Fault}
    (hfault : a.perform h = .error fault) : h.after a = h := by
  rw [after, hfault]

/-! ## Histories -/

/-- Actions on scopes, the first one first. -/
abbrev History := List ScopeAction

namespace History

/-- The heap after all actions, from no frame on. -/
def heap (actions : History) : Heap :=
  actions.foldl Heap.after {}

/-- The frames that were made, each by its outer frame, in the order of their numbers. -/
def outers (actions : History) : List (Option FrameId) :=
  actions.filterMap ScopeAction.made?

/-- The name was introduced or bound in the frame. -/
def Named (actions : History) (i : FrameId) (x : String) : Prop :=
  ∃ a ∈ actions, a.names i x = true

/-- The values that the name was bound to in the frame, the latest last. -/
def values (actions : History) (i : FrameId) (x : String) : List Datum :=
  actions.filterMap (ScopeAction.value? i x)

/-- Every action works on a frame that was there. -/
def Possible (actions : History) : Prop :=
  ∀ k < actions.length, ∀ a ∈ actions[k]?, ∀ i ∈ a.frame?, i < (outers (actions.take k)).length

instance (actions : History) : Decidable actions.Possible :=
  inferInstanceAs (Decidable (∀ k < actions.length, ∀ a ∈ actions[k]?, ∀ i ∈ a.frame?,
    i < (outers (actions.take k)).length))

/-- The nearest frame, from a frame outwards, in which a name was introduced or bound. -/
inductive Nearest (actions : History) (x : String) : FrameId → Option FrameId → Prop
  | here {i : FrameId} : actions.Named i x → Nearest actions x i (some i)
  | outward {i o : FrameId} {g : Option FrameId} : ¬ actions.Named i x →
      actions.outers[i]? = some (some o) → Nearest actions x o g → Nearest actions x i g
  | nowhere {i : FrameId} : ¬ actions.Named i x → actions.outers[i]? = some none →
      Nearest actions x i none

variable {actions : History} {i : FrameId} {x : String}

/-- There is one nearest frame at most. -/
theorem Nearest.unique {g g' : Option FrameId} (h : actions.Nearest x i g)
    (h' : actions.Nearest x i g') : g = g' := by
  induction h with
  | here hnamed =>
    cases h' with
    | here _ => rfl
    | outward hnot _ _ => exact absurd hnamed hnot
    | nowhere hnot _ => exact absurd hnamed hnot
  | outward hnot houter _ ih =>
    cases h' with
    | here hnamed => exact absurd hnamed hnot
    | outward _ houter' hrest' =>
      rw [houter] at houter'
      cases houter'
      exact ih hrest'
    | nowhere _ houter' =>
      rw [houter] at houter'
      cases houter'
  | nowhere hnot houter =>
    cases h' with
    | here hnamed => exact absurd hnamed hnot
    | outward _ houter' _ =>
      rw [houter] at houter'
      cases houter'
    | nowhere _ _ => rfl

/-! ## One more action -/

theorem outers_concat (actions : History) (a : ScopeAction) :
    outers (actions ++ [a]) = actions.outers ++ a.made?.toList := by
  rw [outers, List.filterMap_append]
  cases h : a.made? <;> simp [outers, h]

theorem outers_concat_of_none (actions : History) {a : ScopeAction} (ha : a.made? = none) :
    outers (actions ++ [a]) = actions.outers := by
  rw [outers_concat, ha]
  exact List.append_nil _

theorem named_concat (actions : History) (a : ScopeAction) (i : FrameId) (x : String) :
    Named (actions ++ [a]) i x ↔ actions.Named i x ∨ a.names i x = true := by
  simp only [Named, List.mem_append, List.mem_singleton]
  constructor
  · rintro ⟨b, hb | rfl, hnames⟩
    · exact .inl ⟨b, hb, hnames⟩
    · exact .inr hnames
  · rintro (⟨b, hb, hnames⟩ | hnames)
    · exact ⟨b, .inl hb, hnames⟩
    · exact ⟨a, .inr rfl, hnames⟩

theorem values_concat (actions : History) (a : ScopeAction) (i : FrameId) (x : String) :
    values (actions ++ [a]) i x = actions.values i x ++ (a.value? i x).toList := by
  rw [values, List.filterMap_append]
  cases h : a.value? i x <;> simp [values, h]

theorem named_of_mem_values {v : Datum} (hv : v ∈ actions.values i x) :
    actions.Named i x ∧ v ≠ .unassigned := by
  obtain ⟨a, ha, hvalue⟩ := List.mem_filterMap.mp hv
  obtain ⟨hnames, hproper⟩ := ScopeAction.names_of_value? hvalue
  exact ⟨⟨a, ha, hnames⟩, hproper⟩

theorem possible_concat (a : ScopeAction) (h : Possible (actions ++ [a])) :
    actions.Possible ∧ ∀ i ∈ a.frame?, i < actions.outers.length := by
  constructor
  · intro k hk
    have hearlier := h k (by simp; omega)
    rwa [List.getElem?_append_left hk, List.take_append_of_le_length (Nat.le_of_lt hk)] at hearlier
  · have hlast := h actions.length (by simp) a (by simp)
    rwa [List.take_left'] at hlast
    rfl

/-! ## What a heap holds of a history -/

/-- A binding is what a history says of a name in a frame: nothing if it was never introduced
or bound there, the latest of its values if it has any, and the placeholder otherwise. -/
structure Tells (actions : History) (i : FrameId) (x : String) (binding : Option Datum) :
    Prop where
  named : binding.isSome ↔ actions.Named i x
  value : ∀ v ∈ binding, v = (actions.values i x).getLast?.getD .unassigned

/-- An action that is not about a name in a frame leaves what there is to tell of it. -/
theorem Tells.concat {binding : Option Datum} (h : actions.Tells i x binding) {a : ScopeAction}
    (ha : a.names i x = false) : Tells (actions ++ [a]) i x binding := by
  have hvalue : a.value? i x = none := by
    cases hv : a.value? i x with
    | none => rfl
    | some v => simp [(ScopeAction.names_of_value? hv).1] at ha
  refine ⟨?_, ?_⟩
  · rw [named_concat, h.named]
    simp [ha]
  · rw [values_concat, hvalue]
    simpa using h.value

/-- The heap has the frames that were made, and in each of them what there is to tell. -/
structure Records (actions : History) (h : Heap) : Prop where
  layered : h.Layered
  size : h.size = actions.outers.length
  outer : ∀ (i : FrameId) (f : Frame), h.frames[i]? = some f → actions.outers[i]? = some f.outer
  binding : ∀ (i : FrameId) (f : Frame), h.frames[i]? = some f →
    ∀ x, actions.Tells i x (f.bindings.get? x)
  within : ∀ a ∈ actions, ∀ i ∈ a.frame?, i < h.size

theorem records_nil : Records [] {} where
  layered i f o hf := by simp at hf
  size := rfl
  outer i f hf := by simp at hf
  binding i f hf := by simp at hf
  within a ha := absurd ha List.not_mem_nil

variable {h : Heap}

theorem Records.not_named_size (hr : actions.Records h) (x : String) :
    ¬ actions.Named h.size x := by
  rintro ⟨a, ha, hnames⟩
  exact absurd (hr.within a ha _ (ScopeAction.frame?_of_names hnames)) (Nat.lt_irrefl _)

theorem Records.within_concat (hr : actions.Records h) {h' : Heap} (hsize : h.size ≤ h'.size)
    {a : ScopeAction} (ha : ∀ i ∈ a.frame?, i < h'.size) :
    ∀ b ∈ actions ++ [a], ∀ i ∈ b.frame?, i < h'.size := by
  intro b hb i hi
  rcases List.mem_append.mp hb with hb | hb
  · exact Nat.lt_of_lt_of_le (hr.within b hb i hi) hsize
  · rw [List.mem_singleton.mp hb] at hi
    exact ha i hi

/-- Making a frame. -/
theorem Records.push (hr : actions.Records h) {a : ScopeAction} {outer : Option FrameId}
    (hmade : a.made? = some outer) (hnames : ∀ i x, a.names i x = false)
    (hframe : a.frame? = outer) (houter : ∀ o, outer = some o → o < h.size) :
    Records (actions ++ [a]) (h.push { outer }) := by
  have houters : outers (actions ++ [a]) = actions.outers ++ [outer] := by
    rw [outers_concat, hmade]
    rfl
  refine ⟨hr.layered.pushFrame houter, ?_, ?_, ?_, ?_⟩
  · rw [Heap.size_push, houters, List.length_append, hr.size]
    rfl
  · intro i f hf
    rw [houters]
    rcases Heap.frame_push hf with hf | ⟨rfl, rfl⟩
    · have hi : i < actions.outers.length := hr.size ▸ Heap.lt_size_of_frame hf
      rw [List.getElem?_append_left hi, hr.outer i f hf]
    · rw [hr.size]
      simp
  · intro i f hf x
    rcases Heap.frame_push hf with hf | ⟨rfl, rfl⟩
    · exact (hr.binding i f hf x).concat (hnames i x)
    · -- nothing was done in a frame before it was made
      refine Tells.concat ⟨?_, ?_⟩ (hnames _ x)
      · simp [Bindings.get?, hr.not_named_size x]
      · simp [Bindings.get?]
  · refine hr.within_concat (by simp [Heap.size_push]) fun i hi => ?_
    rw [hframe] at hi
    rw [Heap.size_push]
    exact Nat.lt_succ_of_lt (houter i hi)

/-- Changing one frame. -/
theorem Records.update (hr : actions.Records h) {a : ScopeAction} {j : FrameId}
    {u : Frame → Frame} (hmade : a.made? = none) (hframe : a.frame? = some j) (hj : j < h.size)
    (houter : ∀ f, (u f).outer = f.outer)
    (hbinding : ∀ f, h.frames[j]? = some f → ∀ x,
      Tells (actions ++ [a]) j x ((u f).bindings.get? x)) :
    Records (actions ++ [a]) (h.update j u) := by
  have houters := outers_concat_of_none actions hmade
  have hother (i : FrameId) (x : String) (hi : i ≠ j) : a.names i x = false := by
    cases hnames : a.names i x with
    | false => rfl
    | true =>
      have hi' := ScopeAction.frame?_of_names hnames
      rw [hframe] at hi'
      exact absurd (Option.some.inj hi').symm hi
  refine ⟨hr.layered.update houter, ?_, ?_, ?_, ?_⟩
  · rw [Heap.size_update, houters, hr.size]
  · intro i f hf
    rw [houters]
    obtain ⟨f₀, hf₀, rfl | rfl⟩ := Heap.frame_update hf
    · exact hr.outer i f hf₀
    · rw [houter]
      exact hr.outer i f₀ hf₀
  · intro i f hf x
    by_cases hi : i = j
    · subst hi
      rw [Heap.frames_update_self] at hf
      obtain ⟨f₀, hf₀, rfl⟩ := Option.map_eq_some_iff.mp hf
      exact hbinding f₀ hf₀ x
    · rw [Heap.frames_update_ne h u hi] at hf
      exact (hr.binding i f hf x).concat (hother i x hi)
  · have hsize := Heap.size_update h j u
    refine hr.within_concat (Nat.le_of_eq hsize.symm) fun i hi => ?_
    rw [hframe] at hi
    cases hi
    rwa [hsize]

/-- Binding a name: it has this value now, and it is the only name concerned. -/
theorem Records.assign (hr : actions.Records h) {j : FrameId} (hj : j < h.size) {name : Datum}
    {y : String} (hy : name.symbol? = some y) {v : Datum} (hv : v ≠ .unassigned) :
    Records (actions ++ [.assign j name v hv]) (h.update j (·.assign y v)) := by
  refine hr.update rfl rfl hj (fun _ => rfl) ?_
  intro f hf x
  by_cases hx : x = y
  · subst hx
    have hnames : (ScopeAction.assign j name v hv).names j x = true := by
      simp [ScopeAction.names, hy]
    have hvalue : (ScopeAction.assign j name v hv).value? j x = some v := by
      simp [ScopeAction.value?, hy]
    rw [Frame.assign, Bindings.get?_put_self]
    refine ⟨?_, ?_⟩
    · simp [named_concat, hnames]
    · simp [values_concat, hvalue]
  · have hnames : (ScopeAction.assign j name v hv).names j x = false := by
      simp [ScopeAction.names, hy, Ne.symm hx]
    rw [Frame.assign, Bindings.get?_put_of_ne hx]
    exact (hr.binding j f hf x).concat hnames

/-- Introducing a name: it keeps its value if it has one. -/
theorem Records.declare (hr : actions.Records h) {j : FrameId} (hj : j < h.size) {name : Datum}
    {y : String} (hy : name.symbol? = some y) :
    Records (actions ++ [.declare j name]) (h.update j (·.declare y)) := by
  refine hr.update rfl rfl hj (fun f => f.outer_declare y) ?_
  intro f hf x
  have htells := hr.binding j f hf x
  have hvalue : (ScopeAction.declare j name).value? j x = none := rfl
  by_cases hx : x = y
  · subst hx
    have hnames : (ScopeAction.declare j name).names j x = true := by
      simp [ScopeAction.names, hy]
    unfold Frame.declare
    rw [Bindings.has_eq_isSome]
    split
    · next hsome =>
      refine ⟨?_, ?_⟩
      · simp [named_concat, hnames, hsome]
      · simpa [values_concat, hvalue] using htells.value
    · next hnone =>
      -- without a binding there are no values yet
      have hempty : actions.values j x = [] := by
        rw [List.eq_nil_iff_forall_not_mem]
        exact fun v hv => hnone (htells.named.mpr (named_of_mem_values hv).1)
      rw [Frame.assign, Bindings.get?_put_self]
      refine ⟨?_, ?_⟩
      · simp [named_concat, hnames]
      · simp [values_concat, hvalue, hempty]
  · have hnames : (ScopeAction.declare j name).names j x = false := by
      simp [ScopeAction.names, hy, Ne.symm hx]
    have hget : (f.declare y).bindings.get? x = f.bindings.get? x := by
      unfold Frame.declare
      split
      · rfl
      · rw [Frame.assign, Bindings.get?_put_of_ne hx]
    rw [hget]
    exact htells.concat hnames

/-- An action without a proper name changes nothing, and it is about no name. -/
theorem Records.failed (hr : actions.Records h) {a : ScopeAction} {name : Datum}
    (hname : a.name? = some name) (hsymbol : name.symbol? = none)
    (ha : ∀ i ∈ a.frame?, i < h.size) : Records (actions ++ [a]) (h.after a) := by
  have hafter : h.after a = h := by
    obtain ⟨fault, hfault, -⟩ := Heap.bindableName_of_other hsymbol
    exact Heap.after_of_error (ScopeAction.perform_of_other h hname hfault)
  have hmade : a.made? = none := by
    cases a with
    | outermost | child => cases hname
    | _ => rfl
  have hnames (i : FrameId) (x : String) : a.names i x = false := by
    cases a with
    | outermost | child => cases hname
    | assign | declare =>
      cases hname
      simp [ScopeAction.names, hsymbol]
  have houters := outers_concat_of_none actions hmade
  rw [hafter]
  refine ⟨hr.layered, by rw [houters, hr.size], ?_, ?_, hr.within_concat (Nat.le_refl _) ha⟩
  · intro i f hf
    rw [houters]
    exact hr.outer i f hf
  · exact fun i f hf x => (hr.binding i f hf x).concat (hnames i x)

/-! ## Runs -/

/-- Every action keeps up what a heap holds of the history. -/
theorem Records.after (hr : actions.Records h) {a : ScopeAction}
    (ha : ∀ i ∈ a.frame?, i < h.size) : Records (actions ++ [a]) (h.after a) := by
  cases a with
  | outermost => exact hr.push rfl (fun _ _ => rfl) rfl (by rintro o ⟨⟩)
  | child outer =>
    refine hr.push rfl (fun _ _ => rfl) rfl ?_
    rintro o ⟨⟩
    exact ha outer rfl
  | assign frame name value proper =>
    cases hname : name.symbol? with
    | some y =>
      have hafter : h.after (.assign frame name value proper) =
          h.update frame (·.assign y value) := by
        simp only [Heap.after, ScopeAction.perform, Heap.assign, Heap.bindableName, hname]
        rfl
      rw [hafter]
      exact hr.assign (ha frame rfl) hname proper
    | none => exact hr.failed rfl hname ha
  | declare frame name =>
    cases hname : name.symbol? with
    | some y =>
      have hafter : h.after (.declare frame name) = h.update frame (·.declare y) := by
        simp only [Heap.after, ScopeAction.perform, Heap.declare, Heap.bindableName, hname]
        rfl
      rw [hafter]
      exact hr.declare (ha frame rfl) hname
    | none => exact hr.failed rfl hname ha

/-- The heap after a history holds what the history says. -/
theorem records_heap (hactions : actions.Possible) : actions.Records actions.heap := by
  induction actions using List.reverseRecOn with
  | nil => exact records_nil
  | append_singleton actions a ih =>
    obtain ⟨hearlier, ha⟩ := possible_concat a hactions
    have hr := ih hearlier
    have hheap : heap (actions ++ [a]) = (heap actions).after a := by
      simp [heap]
    rw [hheap]
    exact hr.after fun i hi => hr.size ▸ ha i hi

/-! ## Looking up -/

/-- The chain of frames is searched for the nearest one that has the name. -/
theorem Records.nearest_of_chain (hr : actions.Records h) (x : String) {chain : List FrameId}
    (hchain : h.ChainEnds i chain) :
    actions.Nearest x i (chain.find? fun j => (h.bindings j).has x) := by
  have hhas {j : FrameId} {f : Frame} (hf : h.frames[j]? = some f) :
      (h.bindings j).has x = true ↔ actions.Named j x := by
    rw [Heap.bindings_of_frame hf, Bindings.has_eq_isSome]
    exact (hr.binding j f hf x).named
  induction hchain with
  | @outermost i f hf houter =>
    have houters : actions.outers[i]? = some none := by rw [hr.outer i f hf, houter]
    rw [List.find?_cons]
    cases hi : (h.bindings i).has x with
    | true => exact .here ((hhas hf).mp hi)
    | false => exact .nowhere (by simp [← hhas hf, hi]) houters
  | @inside i o f chain hf houter _ _ ih =>
    have houters : actions.outers[i]? = some (some o) := by rw [hr.outer i f hf, houter]
    rw [List.find?_cons]
    cases hi : (h.bindings i).has x with
    | true => exact .here ((hhas hf).mp hi)
    | false => exact .outward (by simp [← hhas hf, hi]) houters ih

theorem Records.nearest_find? (hr : actions.Records h) (hi : i < h.size) (x : String) :
    actions.Nearest x i (h.find? i x) :=
  hr.nearest_of_chain x (hr.layered.chainFrom_ends (Nat.lt_succ_self i) hi)

theorem Records.find?_eq_iff (hr : actions.Records h) (hi : i < h.size) {g : Option FrameId} :
    h.find? i x = g ↔ actions.Nearest x i g := by
  constructor
  · rintro rfl
    exact hr.nearest_find? hi x
  · exact fun hg => (hr.nearest_find? hi x).unique hg

/-- The three outcomes of looking a name up. -/
theorem Records.lookup_cases (hr : actions.Records h) (i : FrameId) (x : String) :
    (h.find? i x = none ∧ h.lookup i x = .error (.unbound x)) ∨
    (∃ g, h.find? i x = some g ∧ actions.values g x = [] ∧
      h.lookup i x = .error (.usedBeforeDefined x)) ∨
    ∃ g v, h.find? i x = some g ∧ (actions.values g x).getLast? = some v ∧
      h.lookup i x = .ok v := by
  cases hfind : h.find? i x with
  | none => exact .inl ⟨rfl, by rw [Heap.lookup, hfind]⟩
  | some g =>
    have hg : g < h.size := Heap.lt_size_of_mem_chainFrom _ (List.mem_of_find?_eq_some hfind)
    obtain ⟨f, hf⟩ := Heap.exists_frame hg
    have hhas : (h.bindings g).has x = true := by simpa using List.find?_some hfind
    rw [Heap.bindings_of_frame hf, Bindings.has_eq_isSome] at hhas
    obtain ⟨w, hw⟩ := Option.isSome_iff_exists.mp hhas
    have hvalue := (hr.binding g f hf x).value w hw
    rw [Heap.lookup, hfind]
    simp only [Heap.bindings_of_frame hf, hw]
    cases hlast : (actions.values g x).getLast? with
    | none =>
      rw [hlast, Option.getD_none] at hvalue
      subst hvalue
      exact .inr (.inl ⟨g, rfl, List.getLast?_eq_none_iff.mp hlast, rfl⟩)
    | some v =>
      rw [hlast, Option.getD_some] at hvalue
      subst hvalue
      refine .inr (.inr ⟨g, w, rfl, hlast, ?_⟩)
      have hproper : w ≠ .unassigned := (named_of_mem_values (List.mem_of_getLast? hlast)).2
      cases w with
      | unassigned => exact absurd rfl hproper
      | _ => rfl

end History

open History in
/-- **What a name stands for is what its history says.** Make frames, introduce names and bind
them, in any frames and in any order. Then, seen from any frame:

* a name is found in the nearest frame in which it was introduced or bound;
* looking it up fails as unbound if there is no such frame, as used before its definition if
  it was only ever introduced there, and otherwise yields the value it was bound to last;
* an action with a name that is no symbol fails and changes nothing. The failure is a type
  error that quotes the name, unless the name holds an integer with too many digits to be
  written. -/
theorem scope_refines_history (actions : History) (hactions : actions.Possible) (i : FrameId)
    (hi : i < actions.outers.length) (x : String) :
    (∀ g, actions.heap.find? i x = g ↔ actions.Nearest x i g) ∧
    (actions.heap.lookup i x = .error (.unbound x) ↔ actions.Nearest x i none) ∧
    (actions.heap.lookup i x = .error (.usedBeforeDefined x) ↔
      ∃ g, actions.Nearest x i (some g) ∧ actions.values g x = []) ∧
    (∀ v, actions.heap.lookup i x = .ok v ↔
      ∃ g, actions.Nearest x i (some g) ∧ (actions.values g x).getLast? = some v) ∧
    ∀ (a : ScopeAction) (name : Datum), a.name? = some name → name.symbol? = none →
      actions.heap.after a = actions.heap ∧
      ((∃ text e, name.describe = .ok text ∧ a.perform actions.heap = .error (.error e) ∧
          e.kind = .type ∧ e.message = "cannot bind " ++ text ++ " as an identifier") ∨
        ∃ n large, name.describe = .error (.written n large) ∧
          a.perform actions.heap = .error (.oversized (.written n large))) := by
  have hr := records_heap hactions
  rw [← hr.size] at hi
  have hfind {g : Option FrameId} : actions.heap.find? i x = g ↔ actions.Nearest x i g :=
    hr.find?_eq_iff hi
  refine ⟨fun g => hfind, ?_⟩
  simp only [← hfind]
  rw [← and_assoc, ← and_assoc]
  constructor
  · -- the three outcomes exclude each other, so each is reached in its own case only
    obtain ⟨hg, hlookup⟩ | ⟨g, hg, hempty, hlookup⟩ | ⟨g, w, hg, hlast, hlookup⟩ :=
      hr.lookup_cases i x
    · simp [hg, hlookup]
    · simp [hg, hlookup, hempty]
    · have hfilled : actions.values g x ≠ [] := by
        rintro hempty
        simp [hempty] at hlast
      simp [hg, hlookup, hlast, hfilled]
  · intro a name hname hsymbol
    obtain ⟨fault, hfault, hwhy⟩ := Heap.bindableName_of_other hsymbol
    have hperform := ScopeAction.perform_of_other actions.heap hname hfault
    refine ⟨Heap.after_of_error hperform, ?_⟩
    rcases hwhy with ⟨text, htext, rfl⟩ | ⟨n, large, hlarge, rfl⟩
    · exact .inl ⟨text, _, htext, hperform, rfl, rfl⟩
    · exact .inr ⟨n, large, hlarge, hperform⟩

/-- A frame is made inside another one before that has any names. One name is bound in both,
another one is bound outside and only introduced inside, and a number is no name. -/
theorem scope_refines_history_shadowed :
    let actions : History :=
      [.outermost, .child 0, .declare 0 (.symbol "x"),
        .assign 1 (.symbol "x") (.int 1) (by simp), .assign 0 (.symbol "x") (.int 2) (by simp),
        .assign 0 (.symbol "y") (.int 3) (by simp), .declare 1 (.symbol "y"),
        .assign 1 (.int 4) (.int 5) (by simp), .declare 0 (.symbol "x")]
    actions.Possible ∧
      actions.heap.lookup 1 "x" = .ok (.int 1) ∧ actions.heap.lookup 0 "x" = .ok (.int 2) ∧
      actions.heap.lookup 1 "y" = .error (.usedBeforeDefined "y") ∧
      actions.heap.lookup 1 "z" = .error (.unbound "z") := by
  intro actions
  have hactions : actions.Possible := by decide
  have hinside := scope_refines_history actions hactions 1 (by decide)
  have houtside := scope_refines_history actions hactions 0 (by decide)
  have hnamed {i : FrameId} {x : String} (h : actions.any (·.names i x) = true) :
      actions.Named i x := List.any_eq_true.mp h
  have hnot {i : FrameId} {x : String} (h : actions.any (·.names i x) = false) :
      ¬ actions.Named i x := by
    rintro hnamed
    rw [List.any_eq_true.mpr hnamed] at h
    cases h
  refine ⟨hactions, ?_, ?_, ?_, ?_⟩
  · exact ((hinside "x").2.2.2.1 _).mpr ⟨1, .here (hnamed (by decide)), rfl⟩
  · exact ((houtside "x").2.2.2.1 _).mpr ⟨0, .here (hnamed (by decide)), rfl⟩
  · exact (hinside "y").2.2.1.mpr ⟨1, .here (hnamed (by decide)), rfl⟩
  · exact (hinside "z").2.1.mpr
      (.outward (hnot (by decide)) rfl (.nowhere (hnot (by decide)) rfl))

/-- An integer with too many digits is no name, but it cannot be quoted: binding it fails
without a type error. -/
theorem scope_oversized_name :
    let name : Datum := .int (Nat.pow 10 digitLimit : Nat)
    let a : ScopeAction := .assign 0 name (.int 1) (by simp)
    name.symbol? = none ∧ ∀ e, a.perform (History.heap [.outermost]) ≠ .error (.error e) := by
  intro name a
  refine ⟨rfl, fun e => ?_⟩
  have hlarge : Nat.pow 10 digitLimit ≤ ((Nat.pow 10 digitLimit : Nat) : Int).natAbs := by
    rw [Int.natAbs_natCast]
  rw [ScopeAction.perform_of_other _ rfl (Heap.bindableName_of_large hlarge)]
  intro heq
  cases heq

end SmallScheme
