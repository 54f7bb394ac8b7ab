import Mathlib.Logic.Equiv.Basic
import SmallScheme.Proofs.Copies

/-!
# No name is special

Evaluation compares names with each other and does nothing else with them. So a
renaming that keeps different names different can be carried out before an evaluation or
after it: on the expression, quoted data included, and on all frames with the values in
them.

* **`Heap.renameNames`** — all frames under a renaming of names;
* **`Heap.nameSimulation`** — the renamed heap is a simulation, whatever the heap is;
* **`eval_renames`** — evaluation of the renamed expression in the renamed heap.
-/

namespace SmallScheme

namespace Heap

variable {ρ : String → String} {h h' : Heap}

/-- Rename the names and the values in all frames. -/
def renameNames (ρ : String → String) (h : Heap) : Heap :=
  { frames := h.frames.map (Frame.rename { name := ρ }) }

theorem size_renameNames (ρ : String → String) (h : Heap) : (h.renameNames ρ).size = h.size :=
  Array.size_map

theorem frames_renameNames (ρ : String → String) (h : Heap) (i : FrameId) :
    (h.renameNames ρ).frames[i]? = h.frames[i]?.map (Frame.rename { name := ρ }) :=
  Array.getElem?_map

/-- The renamed heap is the one of the same size with copies of all frames. -/
theorem eq_renameNames_iff :
    h' = h.renameNames ρ ↔ h'.size = h.size ∧ Copies { name := ρ } h h' := by
  constructor
  · rintro rfl
    exact ⟨size_renameNames ρ h, fun i _ => frames_renameNames ρ h i⟩
  · rintro ⟨hsize, hcopies⟩
    have hframes : h'.frames = (h.renameNames ρ).frames := by
      refine Array.ext_getElem? fun i => ?_
      rw [frames_renameNames]
      by_cases hi : i < h.size
      · exact hcopies i hi
      · have hle : h.size ≤ i := Nat.not_lt.mp hi
        have hnone : h.frames[i]? = none := Array.getElem?_eq_none hle
        have hnone' : h'.frames[i]? = none := Array.getElem?_eq_none (hsize.trans_le hle)
        rw [hnone, hnone']
        rfl
    exact congrArg Heap.mk hframes

/-- Chains of outer frames do not depend on names. -/
theorem chainFrom_renameNames (ρ : String → String) (h : Heap) (fuel : Nat) (i : FrameId) :
    (h.renameNames ρ).chainFrom fuel i = h.chainFrom fuel i := by
  induction fuel generalizing i with
  | zero => rfl
  | succ fuel ih =>
    rw [chainFrom, chainFrom, frames_renameNames]
    cases h.frames[i]? with
    | none => rfl
    | some f =>
      have houter : (f.rename { name := ρ }).outer = f.outer := Option.map_id'
      simp only [Option.map_some, houter]
      cases f.outer with
      | none => rfl
      | some o => exact congrArg (i :: ·) (ih o)

theorem chain_of_copies {i : FrameId} (hrel : h'.size = h.size ∧ Copies { name := ρ } h h') :
    h'.chain i = (h.chain i).map id := by
  rw [eq_renameNames_iff.mpr hrel, List.map_id]
  exact chainFrom_renameNames ρ h (i + 1) i

/-- Renaming names is a simulation. -/
def nameSimulation (ρ : String → String) (hρ : Function.Injective ρ) : Simulation :=
  .everywhere { name := ρ } (fun h h' => h'.size = h.size ∧ Copies { name := ρ } h h') hρ
    (fun x hrel => (hrel.2.lookup_paired hρ (chain_of_copies hrel) x).imp fun _ _ hv => hv.2)
    (fun x hrel => by
      rw [size_update, size_update]
      exact ⟨hrel.1, hrel.2.update Function.injective_id _ fun f => f.rename_declare hρ x⟩)
    (fun x v hrel => by
      rw [size_update, size_update]
      exact ⟨hrel.1, hrel.2.update Function.injective_id _ fun f => f.rename_assign hρ x v⟩)
    (fun hrel => by
      rw [size_push, size_push, hrel.1]
      exact ⟨rfl, rfl, hrel.2.push hrel.1.symm rfl⟩)

end Heap

/-! ## Evaluation -/

/-- An expression and its renaming, in a machine and its renaming, reach heaps that are
renamings of each other, with corresponding outcomes. -/
theorem reached_renamed {ρ : String → String} (hρ : Function.Injective ρ) (fuel : Nat)
    (m : Machine) (e : Datum) (env : FrameId) :
    let S := Heap.nameSimulation ρ hρ
    S.Reached S.Value m ((eval fuel e env).exec m)
      ((eval fuel (e.rename { name := ρ }) env).exec
        { m with heap := m.heap.renameNames ρ }) := by
  intro S
  have hagree : S.Agree 0 S.Value (eval fuel e env) (eval fuel (e.rename { name := ρ }) env) :=
    (S.agree_eval fuel).agree trivial trivial
  exact hagree m _ (Heap.eq_renameNames_iff.mp rfl) (Nat.zero_le _)

/-- What it means for two outcomes to correspond. -/
theorem outcome_of_paired {r : Renaming} {o o' : Except Halt Datum}
    (h : Paired (Halt.Alike r) (fun v v' => v' = v.rename r) o o') :
    (∀ v, o = .ok v → o' = .ok (v.rename r)) ∧
    (∀ err, o = .error (.fault (.error err)) →
      ∃ err', o' = .error (.fault (.error err')) ∧ err'.kind = err.kind) ∧
    (∀ large, o = .error (.fault (.oversized large)) → o' = .error (.fault (.oversized large))) ∧
    (o = .error .tooDeep ↔ o' = .error .tooDeep) := by
  cases h with
  | ok hv => simp [hv]
  | error halike =>
    cases halike with
    | tooDeep => simp
    | oversized hwritten => simp
    | error halike => simp [halike.1]

/-- **No name is special.** Rename all symbols of an expression and all names of a heap, in
any way that keeps different names different. Evaluation of the renamed expression in the
renamed heap finishes if the original one does. However deep it may nest, it leaves the
renamed heap of the original one, and it yields the renamed value, or an error of the same
kind. -/
theorem eval_renames (ρ : String → String) (hρ : Function.Injective ρ) (m : Machine) (e : Datum)
    (env : FrameId) :
    let renamed : Machine := { m with heap := m.heap.renameNames ρ }
    let e' := e.rename { name := ρ }
    (renamed.Finishes e' env ↔ m.Finishes e env) ∧
    ∀ fuel,
      let run := (eval fuel e env).exec m
      let run' := (eval fuel e' env).exec renamed
      run'.2.heap = run.2.heap.renameNames ρ ∧
      (∀ v, run.1 = .ok v → run'.1 = .ok (v.rename { name := ρ })) ∧
      (∀ err, run.1 = .error (.fault (.error err)) →
        ∃ err', run'.1 = .error (.fault (.error err')) ∧ err'.kind = err.kind) ∧
      (∀ o, run.1 = .error (.fault (.oversized o)) → run'.1 = .error (.fault (.oversized o))) ∧
      (run.1 = .error .tooDeep → run'.1 = .error .tooDeep) := by
  intro renamed e'
  have houtcome : ∀ fuel,
      Paired (Halt.Alike { name := ρ }) (fun v v' => v' = v.rename { name := ρ })
        ((eval fuel e env).exec m).1 ((eval fuel e' env).exec renamed).1 :=
    fun fuel => (reached_renamed hρ fuel m e env).outcome.imp fun _ _ hv => hv.eq
  refine ⟨?_, ?_⟩
  · exact exists_congr fun fuel => not_congr (outcome_of_paired (houtcome fuel)).2.2.2.symm
  · intro fuel run run'
    obtain ⟨hvalue, herror, hoversized, hdeep⟩ := outcome_of_paired (houtcome fuel)
    have hheap := (reached_renamed hρ fuel m e env).rel
    exact ⟨Heap.eq_renameNames_iff.mpr hheap, hvalue, herror, hoversized, hdeep.mp⟩

/-- The name that stands for the end of the input elsewhere, exchanged with a parameter: the
call of the renamed procedure has the same value, and a renamed symbol that is not bound is
the same error. -/
theorem eval_renames_exchanged_names :
    let ρ : String → String := Equiv.swap "x" "eof"
    let m : Machine := { heap := { frames := #[{ bindings := [("eof", .int 1)] }] } }
    let renamed : Machine := { heap := { frames := #[{ bindings := [("x", .int 1)] }] } }
    let call (a b : String) : Datum := .list [.list [.keyword .lambda, .list [.symbol a],
      .list [.keyword .cons, .symbol a, .list [.keyword .quote, .list [.symbol b]]]], .symbol b]
    Function.Injective ρ ∧ m.heap.renameNames ρ = renamed.heap ∧
      (call "x" "eof").rename { name := ρ } = call "eof" "x" ∧
      ((eval 5 (call "x" "eof") 0).exec m).1 = .ok (.list [.int 1, .symbol "eof"]) ∧
      ((eval 5 (call "eof" "x") 0).exec renamed).1 = .ok (.list [.int 1, .symbol "x"]) ∧
      ((eval 5 (.symbol "x") 0).exec m).1 = .error (.fault (.error (.unbound "x"))) ∧
      ∃ err, ((eval 5 (.symbol "eof") 0).exec renamed).1 = .error (.fault (.error err)) ∧
        err.kind = .name := by
  intro ρ m renamed call
  have hinj : Function.Injective ρ := (Equiv.swap "x" "eof").injective
  have hx : ρ "x" = "eof" := Equiv.swap_apply_left "x" "eof"
  have heof : ρ "eof" = "x" := Equiv.swap_apply_right "x" "eof"
  have hheap : m.heap.renameNames ρ = renamed.heap := by
    simp [m, renamed, Heap.renameNames, Frame.rename, Bindings.rename, Datum.rename, heof]
  have hcall : (call "x" "eof").rename { name := ρ } = call "eof" "x" := by
    simp [call, Datum.rename, Datum.renameEach, hx, heof]
  have hrenamed : ({ m with heap := m.heap.renameNames ρ } : Machine) = renamed := by
    rw [hheap]
  have hvalue : ((eval 5 (call "x" "eof") 0).exec m).1 = .ok (.list [.int 1, .symbol "eof"]) := rfl
  have herror : ((eval 5 (.symbol "x") 0).exec m).1 =
      .error (.fault (.error (.unbound "x"))) := rfl
  have hvalue' := ((eval_renames ρ hinj m (call "x" "eof") 0).2 5).2.1 _ hvalue
  have herror' := ((eval_renames ρ hinj m (.symbol "x") 0).2 5).2.2.1 _ herror
  rw [hrenamed] at hvalue' herror'
  rw [hcall] at hvalue'
  simp only [Datum.rename, Datum.renameEach, hx, heof] at hvalue' herror'
  exact ⟨hinj, hheap, hcall, hvalue, hvalue', herror, herror'⟩

end SmallScheme
