import SmallScheme.Proofs.Invariants
import SmallScheme.Proofs.Scope

/-!
# The heaps that interpreters reach

However procedures travel, in lists, in arguments, in frames and out of them, three
things hold of every heap that an interpreter reaches: outer frames are older than the
frames inside them, every procedure was made in a frame that exists, and its parameters
are distinct names.

* **`Layered.chainFrom_ends`** — so the frames around a frame come to an end, and
  `Heap.chain` has them all;
* **`exec_apply`** — so a call with as many arguments as there are parameters binds each
  parameter to its argument, and nothing goes wrong before the body is evaluated.

Main statement: `reachable_heap_sound`.
-/

namespace SmallScheme

/-! ## Chains of frames -/

namespace Heap

/-- All frames from `i` outwards: each one is older than the one before, and the last one has
no outer frame. -/
inductive ChainEnds (h : Heap) : FrameId → List FrameId → Prop
  | outermost {i : FrameId} {f : Frame} : h.frames[i]? = some f → f.outer = none →
      ChainEnds h i [i]
  | inside {i o : FrameId} {f : Frame} {chain : List FrameId} : h.frames[i]? = some f →
      f.outer = some o → o < i → ChainEnds h o chain → ChainEnds h i (i :: chain)

theorem Layered.chainFrom_ends {h : Heap} (hl : h.Layered) {fuel : Nat} {i : FrameId}
    (hfuel : i < fuel) (hi : i < h.size) : h.ChainEnds i (h.chainFrom fuel i) := by
  induction fuel generalizing i with
  | zero => exact absurd hfuel (Nat.not_lt_zero i)
  | succ fuel ih =>
    obtain ⟨f, hf⟩ := exists_frame hi
    rw [chainFrom, hf]
    cases ho : f.outer with
    | none =>
      simp only [ho]
      exact .outermost hf ho
    | some o =>
      have holder : o < i := hl i f o hf ho
      have hrest := ih (Nat.lt_of_lt_of_le holder (Nat.le_of_lt_succ hfuel))
        (Nat.lt_trans holder hi)
      simp only [ho]
      exact .inside hf ho holder hrest

/-! ## Calls -/

/-- Changing the newest frame. -/
theorem update_push_size (h : Heap) (f : Frame) (u : Frame → Frame) :
    (h.push f).update h.size u = h.push (u f) := by
  refine congrArg Heap.mk (Array.ext_getElem? ?_)
  intro i
  rw [Array.getElem?_modify, push, Array.getElem?_push, Array.getElem?_push]
  by_cases hi : i = h.frames.size
  · simp [hi, size]
  · have hne : h.size ≠ i := fun heq => hi heq.symm
    simp [hi, hne]

end Heap

namespace Bindings

theorem put_of_not_has {bs : Bindings} {x : String} (hx : bs.has x = false) (v : Datum) :
    bs.put x v = bs ++ [(x, v)] := by
  induction bs with
  | nil => rfl
  | cons b bs ih =>
    obtain ⟨y, w⟩ := b
    simp only [has, List.any_cons, Bool.or_eq_false_iff, decide_eq_false_iff_not] at hx
    rw [put, if_neg hx.1, ih hx.2]
    rfl

end Bindings

/-- The first of several distinct names that are not bound yet comes last, and the others are
still not bound. -/
theorem Frame.assign_fresh {f : Frame} {x : String} {names : List String}
    (hnames : (x :: names).Nodup) (hfresh : ∀ y ∈ x :: names, f.bindings.has y = false)
    (v : Datum) :
    f.assign x v = { f with bindings := f.bindings ++ [(x, v)] } ∧
      ∀ y ∈ names, (f.assign x v).bindings.has y = false := by
  obtain ⟨hx, -⟩ := List.nodup_cons.mp hnames
  obtain ⟨hfx, hfnames⟩ := List.forall_mem_cons.mp hfresh
  have hassign : f.assign x v = { f with bindings := f.bindings ++ [(x, v)] } := by
    rw [Frame.assign, Bindings.put_of_not_has hfx]
  refine ⟨hassign, ?_⟩
  intro y hy
  have hxy : x ≠ y := fun heq => hx (heq ▸ hy)
  have hfy := hfnames y hy
  rw [hassign]
  simp only [Bindings.has, List.any_append] at hfy ⊢
  simp [hfy, hxy]

namespace Eval

theorem exec_record (e : Event) (m : Machine) :
    (record e).exec m = (.ok (), { m with trace := m.trace.push e }) := rfl

/-- Arguments are bound to distinct names in the order of the names. -/
theorem exec_bindArguments (h : Heap) (trace : Array Event) {names : List String}
    (hnames : names.Nodup) {args : List Datum} (hlength : args.length = names.length) (f : Frame)
    (hfresh : ∀ x ∈ names, f.bindings.has x = false) :
    (bindArguments h.size (names.map .symbol) args).exec { heap := h.push f, trace } =
      (.ok (), { heap := h.push { f with bindings := f.bindings ++ names.zip args }, trace }) := by
  induction names generalizing args f with
  | nil =>
    rw [List.zip_nil_left, List.append_nil]
    rfl
  | cons x names ih =>
    cases args with
    | nil => simp at hlength
    | cons v args =>
      obtain ⟨hassign, hfresh'⟩ := Frame.assign_fresh hnames hfresh v
      have hrest := ih (List.nodup_cons.mp hnames).2 (Nat.succ.inj hlength) (f.assign x v) hfresh'
      show (assign h.size x v >>= fun _ => bindArguments h.size (names.map .symbol) args).exec _ = _
      rw [exec_bind, exec_assign]
      dsimp only
      rw [Heap.update_push_size, hrest, hassign]
      simp

/-- A call with the right number of arguments makes a frame with the parameters and the
arguments, and evaluates the body there. -/
theorem exec_apply (ev : Evaluator) {names : List String} (hnames : names.Nodup) (body : Datum)
    (frame : FrameId) {args : List Datum} (hlength : args.length = names.length) (m : Machine) :
    (apply ev (names.map .symbol) body frame args).exec m =
      (ev body m.heap.size).exec {
        heap := m.heap.push { bindings := names.zip args, outer := some frame }
        trace := m.trace.push (.applied (.closure (names.map .symbol) body frame) args) } := by
  have hbind := exec_bindArguments m.heap m.trace hnames hlength { outer := some frame }
    (fun _ _ => rfl)
  rw [apply, List.length_map]
  simp only [hlength, if_true]
  rw [exec_bind, exec_child]
  dsimp only
  rw [exec_bind, hbind]
  dsimp only
  rw [exec_bind, exec_record]
  rfl

end Eval

/-! ## Procedures -/

/-- A procedure when there are `n` frames: it was made in one of them, its parameters are
distinct names, and a call with as many arguments makes a frame in which each parameter is
bound to its argument, in order, and then evaluates the body there. -/
def SoundProcedure (n : Nat) (formals : List Datum) (body : Datum) (frame : FrameId) : Prop :=
  frame < n ∧ ∃ names : List String, names.Nodup ∧ formals = names.map .symbol ∧
    ∀ (ev : Evaluator) (m : Machine) (args : List Datum), args.length = names.length →
      (Eval.apply ev formals body frame args).exec m =
        (ev body m.heap.size).exec {
          heap := m.heap.push { bindings := names.zip args, outer := some frame }
          trace := m.trace.push (.applied (.closure formals body frame) args) }

theorem soundProcedure_of_nodup {n : Nat} {names : List String} (hnames : names.Nodup)
    (body : Datum) {frame : FrameId} (hframe : frame < n) :
    SoundProcedure n (names.map .symbol) body frame := by
  refine ⟨hframe, names, hnames, rfl, ?_⟩
  intro ev m args hlength
  exact Eval.exec_apply ev hnames body frame hlength m

theorem SoundProcedure.mono {n n' : Nat} (hn : n ≤ n') {formals : List Datum} {body : Datum}
    {frame : FrameId} (h : SoundProcedure n formals body frame) :
    SoundProcedure n' formals body frame :=
  ⟨Nat.lt_of_lt_of_le h.1 hn, h.2⟩

namespace Heap

/-- Every procedure in the datum is sound. -/
abbrev SoundData (n : Nat) (d : Datum) : Prop :=
  d.EveryClosure (SoundProcedure n)

/-- Outer frames are older, and all procedures are sound. -/
def soundInvariant : Invariant where
  keeps h := 0 < h.size ∧ h.Layered ∧ h.Holds SoundData
  ok := SoundData
  live n i := i < n
  ok_mono hn hd := hd.mono fun _ _ _ h => h.mono hn
  live_mono hn hi := Nat.lt_of_lt_of_le hi hn
  ok_leaf {n d} hd := by
    cases d with
    | list => cases hd
    | closure => cases hd
    | _ => trivial
  ok_nil _ := trivial
  ok_list := Datum.everyClosure_list _
  ok_closure names hnames hbody hi := by
    refine (Datum.everyClosure_closure _ _ _).mpr ⟨soundProcedure_of_nodup hnames _ hi, ?_, hbody⟩
    intro d hd
    obtain ⟨x, -, rfl⟩ := List.mem_map.mp hd
    trivial
  ok_call hclosure := by
    obtain ⟨hsound, -, hbody⟩ := (Datum.everyClosure_closure _ _ _).mp hclosure
    exact ⟨hbody, hsound.1⟩
  live_global hh := hh.1
  lookup hh _ hv := hh.2.2.lookup hv
  declare {h i} x hh _ := by
    refine ⟨?_, hh.2.1.update fun f => f.outer_declare x, hh.2.2.declare trivial⟩
    rw [size_update]
    exact hh.1
  assign {h i v} x hh _ hv := by
    refine ⟨?_, hh.2.1.update fun _ => rfl, hh.2.2.assign hv⟩
    rw [size_update]
    exact hh.1
  child {h i} hh hi := by
    refine ⟨Nat.lt_succ_self _, ?_, hh.2.1.push hi, ?_⟩
    · rw [size_push]
      exact Nat.succ_pos _
    · exact hh.2.2.push (fun hn hd => hd.mono fun _ _ _ h => h.mono hn) (some i)

theorem sound_initial : soundInvariant.keeps initial :=
  ⟨Nat.one_pos, wellFormed_initial.layered, holds_initial _⟩

end Heap

/-! ## Runs -/

namespace Interpreter

open Heap in
/-- **Every heap that an interpreter reaches is sound.** After whatever was entered into a
fresh interpreter, failing entries included: every outer frame is older than the frame
inside it, so the frames around a frame come to an end; and every procedure is sound,
wherever in a frame it is stored and however deep inside a value, and so is every procedure
in the values of the next entry. -/
theorem reachable_heap_sound (limit : Nat) (entries : List Entry) :
    let i := (fresh limit).afterEntries entries
    let h := i.machine.heap
    (∀ (k : FrameId) (f : Frame) (o : FrameId), h.frames[k]? = some f → f.outer = some o → o < k) ∧
    (∀ k < h.size, h.ChainEnds k (h.chain k)) ∧
    (∀ (k : FrameId) (f : Frame), h.frames[k]? = some f →
      ∀ b ∈ f.bindings, b.2.EveryClosure (SoundProcedure h.size)) ∧
    ∀ entry vs, (i.enter entry).1 = .ok vs →
      ∀ v ∈ vs, v.EveryClosure (SoundProcedure (i.enter entry).2.machine.heap.size) := by
  intro i h
  have hkeeps : soundInvariant.keeps h := soundInvariant.keeps_afterEntries sound_initial entries
  have ⟨_, hlayered, hholds⟩ := hkeeps
  refine ⟨hlayered, ?_, hholds, ?_⟩
  · intro k hk
    exact hlayered.chainFrom_ends (Nat.lt_succ_self k) hk
  · intro entry vs hvs
    exact (soundInvariant.reached_enter hkeeps entry).ok vs hvs

/-- A procedure that was defined: any call of it with two arguments binds its two parameters,
in order. -/
theorem reachable_heap_sound_defined_procedure :
    let entries : List Entry := [.program "(define f (lambda (a b) b))"]
    let h := ((fresh 9).afterEntries entries).machine.heap
    h.frames[0]? = some
        { bindings := [("f", .closure [.symbol "a", .symbol "b"] (.symbol "b") 0)] } ∧
      h.ChainEnds 0 (h.chain 0) ∧
      ∃ names : List String, [.symbol "a", .symbol "b"] = names.map Datum.symbol ∧
        ∀ (ev : Evaluator) (m : Machine) (args : List Datum), args.length = names.length →
          (Eval.apply ev [.symbol "a", .symbol "b"] (.symbol "b") 0 args).exec m =
            (ev (.symbol "b") m.heap.size).exec {
              heap := m.heap.push { bindings := names.zip args, outer := some 0 }
              trace := m.trace.push
                (.applied (.closure [.symbol "a", .symbol "b"] (.symbol "b") 0) args) } := by
  intro entries h
  have hparse : parse "(define f (lambda (a b) b))" = .ok [.list [.keyword .define, .symbol "f",
      .list [.keyword .lambda, .list [.symbol "a", .symbol "b"], .symbol "b"]]] := rfl
  obtain ⟨k, hk, hframe⟩ : ∃ k, (fresh 9).evalText "(define f (lambda (a b) b))" = (.ok .nil, k) ∧
      k.machine.heap.frames[0]? = some
        { bindings := [("f", .closure [.symbol "a", .symbol "b"] (.symbol "b") 0)] } :=
    ⟨_, (evalText_eq_ok_iff hparse).mpr ⟨[.nil], rfl, rfl⟩, rfl⟩
  have hh : h = k.machine.heap := by
    simp only [h, entries, afterEntries, List.foldl_cons, List.foldl_nil, enter, hk]
  rw [← hh] at hframe
  obtain ⟨-, hchain, hstored, -⟩ := reachable_heap_sound 9 entries
  obtain ⟨⟨-, names, -, hnames, hcall⟩, -⟩ := hstored 0 _ hframe _ List.mem_cons_self
  exact ⟨hframe, hchain 0 (Heap.lt_size_of_frame hframe), names, hnames, hcall⟩

end Interpreter

end SmallScheme
