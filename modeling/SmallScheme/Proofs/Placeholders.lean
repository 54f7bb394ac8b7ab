import SmallScheme.Proofs.FrameIsolation
import SmallScheme.Proofs.Invariants
import SmallScheme.Proofs.Scope

/-!
# The placeholder for a value that is still missing

Definitions and `letrec` introduce a name before they evaluate its value, and until
then the name is bound to a placeholder. The evaluation in between is arbitrary: it can
use the name, define it again, keep it in a procedure, or fail. All the same

* the placeholder is bound to names and is nowhere else, neither in a value that is
  returned nor inside one that is stored;
* a name with a value never loses it (`Frame.Settles`), so a top-level name that could
  be looked up once can be looked up ever after.

Main statement: `placeholder_never_escapes`.
-/

namespace SmallScheme

/-! ## Data without the placeholder -/

namespace Datum

mutual

/-- The placeholder is nowhere in the datum. -/
def Proper : Datum → Prop
  | .unassigned => False
  | .list items => ProperEach items
  | .closure formals body _ => ProperEach formals ∧ Proper body
  | _ => True

/-- The placeholder is nowhere in the data. -/
def ProperEach : List Datum → Prop
  | [] => True
  | d :: ds => Proper d ∧ ProperEach ds

end

theorem properEach_iff (ds : List Datum) : ProperEach ds ↔ ∀ d ∈ ds, d.Proper := by
  induction ds with
  | nil => simp [ProperEach]
  | cons d ds ih => simp [ProperEach, ih]

theorem proper_list (items : List Datum) : (Datum.list items).Proper ↔ ∀ d ∈ items, d.Proper := by
  rw [Proper, properEach_iff]

theorem proper_closure (formals : List Datum) (body : Datum) (frame : FrameId) :
    (Datum.closure formals body frame).Proper ↔ (∀ d ∈ formals, d.Proper) ∧ body.Proper := by
  rw [Proper, properEach_iff]

theorem Proper.ne_unassigned {d : Datum} (h : d.Proper) : d ≠ .unassigned := by
  rintro rfl
  exact h

theorem proper_of_token? {d : Datum} (h : d.token?.isSome) : d.Proper := by
  cases d with
  | list => cases h
  | closure => cases h
  | unassigned => cases h
  | _ => trivial

end Datum

/-! ## Names that have a value -/

namespace Bindings

theorem get?_put_self (bs : Bindings) (x : String) (v : Datum) :
    (bs.put x v).get? x = some v := by
  induction bs with
  | nil => simp [put, get?]
  | cons b bs ih =>
    obtain ⟨y, w⟩ := b
    rw [put]
    split
    · simp [get?]
    · next hne => simpa [get?, hne] using ih

theorem get?_put_of_ne {x y : String} (hne : y ≠ x) (bs : Bindings) (v : Datum) :
    (bs.put x v).get? y = bs.get? y := by
  induction bs with
  | nil => simp [put, get?, hne.symm]
  | cons b bs ih =>
    obtain ⟨z, w⟩ := b
    rw [put]
    split
    · next heq =>
      subst heq
      simp [get?, hne.symm]
    · by_cases hzy : z = y
      · simp [get?, hzy]
      · simpa [get?, hzy] using ih

theorem has_eq_isSome (bs : Bindings) (x : String) : bs.has x = (bs.get? x).isSome := by
  rw [Bool.eq_iff_iff]
  simp [has, get?]

end Bindings

namespace Frame

/-- The name is bound to a value, and not to the placeholder. -/
def Assigned (f : Frame) (x : String) : Prop :=
  ∃ v, f.bindings.get? x = some v ∧ v ≠ .unassigned

/-- What evaluation leaves of a frame: its outer frame, its names in their order, and each
name with a value if it had one. -/
structure Settles (f f' : Frame) : Prop extends Grows f f' where
  assigned : ∀ x, f.Assigned x → f'.Assigned x

theorem Settles.refl (f : Frame) : f.Settles f :=
  ⟨.refl f, fun _ h => h⟩

theorem Settles.trans {f g k : Frame} (hfg : f.Settles g) (hgk : g.Settles k) : f.Settles k :=
  ⟨hfg.toGrows.trans hgk.toGrows, fun x h => hgk.assigned x (hfg.assigned x h)⟩

theorem settles_assign (f : Frame) (x : String) {v : Datum} (hv : v ≠ .unassigned) :
    f.Settles (f.assign x v) := by
  refine ⟨f.grows_assign x v, ?_⟩
  rintro y ⟨w, hw, hne⟩
  by_cases hyx : y = x
  · subst hyx
    exact ⟨v, f.bindings.get?_put_self y v, hv⟩
  · exact ⟨w, by rw [assign, Bindings.get?_put_of_ne hyx, hw], hne⟩

/-- The placeholder goes to names without a binding only. -/
theorem settles_declare (f : Frame) (x : String) : f.Settles (f.declare x) := by
  refine ⟨f.grows_declare x, ?_⟩
  rintro y ⟨w, hw, hne⟩
  unfold declare
  split
  · exact ⟨w, hw, hne⟩
  · next hhas =>
    have hyx : y ≠ x := by
      rintro rfl
      rw [Bindings.has_eq_isSome, hw] at hhas
      exact hhas rfl
    exact ⟨w, by rw [assign, Bindings.get?_put_of_ne hyx, hw], hne⟩

end Frame

namespace Heap

/-- `h'` has the frames of `h` and perhaps more, and in none of them a name lost its value. -/
def Settles (h h' : Heap) : Prop :=
  ∀ (i : FrameId) (f : Frame), h.frames[i]? = some f →
    ∃ f', h'.frames[i]? = some f' ∧ f.Settles f'

theorem Settles.refl (h : Heap) : h.Settles h :=
  fun _ f hf => ⟨f, hf, .refl f⟩

theorem Settles.trans {h h' h'' : Heap} (hs : h.Settles h') (hs' : h'.Settles h'') :
    h.Settles h'' := by
  intro i f hf
  obtain ⟨f', hf', hsettles⟩ := hs i f hf
  obtain ⟨f'', hf'', hsettles'⟩ := hs' i f' hf'
  exact ⟨f'', hf'', hsettles.trans hsettles'⟩

theorem settles_update (h : Heap) (i : FrameId) {u : Frame → Frame}
    (hu : ∀ f : Frame, f.Settles (u f)) : h.Settles (h.update i u) := by
  intro j f hf
  by_cases hji : j = i
  · subst hji
    exact ⟨u f, by rw [frames_update_self, hf]; rfl, hu f⟩
  · exact ⟨f, by rw [frames_update_ne h u hji, hf], .refl f⟩

theorem settles_push (h : Heap) (new : Frame) : h.Settles (h.push new) := by
  intro i f hf
  exact ⟨f, by rw [frames_push_of_lt h new (lt_size_of_frame hf), hf], .refl f⟩

/-! ## Looking up -/

theorem lookup_ne_unassigned {h : Heap} {i : FrameId} {x : String} {v : Datum}
    (hv : h.lookup i x = .ok v) : v ≠ .unassigned := by
  unfold lookup at hv
  split at hv
  · cases hv
  · split at hv
    · cases hv
    · cases hv
    · next hne _ =>
      cases hv
      exact hne

/-- In a frame without an outer one, the names that have a value can be looked up. -/
theorem lookup_outermost {h : Heap} {i : FrameId} {f : Frame} (hf : h.frames[i]? = some f)
    (houter : f.outer = none) {x : String} :
    (∃ v, h.lookup i x = .ok v) ↔ f.Assigned x := by
  have hfind : h.find? i x = if (f.bindings.get? x).isSome then some i else none := by
    rw [find?, chain, chainFrom, hf]
    simp only [houter, List.find?_singleton, bindings_of_frame hf, Bindings.has_eq_isSome]
  unfold lookup Frame.Assigned
  rw [hfind]
  cases hget : f.bindings.get? x with
  | none => simp
  | some v =>
    cases v with
    | unassigned => simp [bindings_of_frame hf, hget]
    | _ => simp [bindings_of_frame hf, hget]

/-! ## Evaluation -/

/-- A name is bound to the placeholder or to a value without it. -/
def PlaceholderOrProper (_ : Nat) (d : Datum) : Prop :=
  d = .unassigned ∨ d.Proper

/-- Since `start`, no name lost its value, and the placeholder is in no value. -/
def placeholderInvariant (start : Heap) : Invariant where
  keeps h := start.Settles h ∧ h.Holds PlaceholderOrProper
  ok _ d := d.Proper
  live _ _ := True
  ok_mono _ hd := hd
  live_mono _ _ := trivial
  ok_leaf := Datum.proper_of_token?
  ok_nil _ := trivial
  ok_list := Datum.proper_list _
  ok_closure names _ hbody _ := by
    rw [Datum.proper_closure]
    refine ⟨?_, hbody⟩
    intro d hd
    obtain ⟨x, -, rfl⟩ := List.mem_map.mp hd
    trivial
  ok_call hclosure := ⟨((Datum.proper_closure _ _ _).mp hclosure).2, trivial⟩
  live_global _ := trivial
  lookup hh _ hv := (hh.2.lookup hv).resolve_left (lookup_ne_unassigned hv)
  declare {h i} x hh _ :=
    ⟨hh.1.trans (h.settles_update i fun f => f.settles_declare x), hh.2.declare (.inl rfl)⟩
  assign {h i v} x hh _ hv :=
    ⟨hh.1.trans (h.settles_update i fun f => f.settles_assign x hv.ne_unassigned),
      hh.2.assign (.inr hv)⟩
  child {h i} hh _ :=
    ⟨trivial, hh.1.trans (h.settles_push { outer := some i }), hh.2.push (fun _ hd => hd) (some i)⟩

end Heap

/-! ## Runs -/

namespace Interpreter

open Heap in
/-- **The placeholder never escapes, and names keep their values.** After whatever was
entered into a fresh interpreter, failing entries included: the values of the next entry
are without the placeholder, and so is every value that a name is bound to, unless it is
the placeholder itself. Whatever is entered later, each frame keeps its names in their
order, and each name that has a value has one still; so the top-level names that could be
looked up still can. -/
theorem placeholder_never_escapes (limit : Nat) (earlier : List Entry) :
    let i := (fresh limit).afterEntries earlier
    (∀ entry vs, (i.enter entry).1 = .ok vs → ∀ v ∈ vs, v.Proper) ∧
    (∀ (k : FrameId) (f : Frame), i.machine.heap.frames[k]? = some f →
      ∀ b ∈ f.bindings, b.2 = .unassigned ∨ b.2.Proper) ∧
    ∀ later,
      let j := i.afterEntries later
      (∀ (k : FrameId) (f : Frame), i.machine.heap.frames[k]? = some f →
        ∃ f', j.machine.heap.frames[k]? = some f' ∧
          f.bindings.map (·.1) <+: f'.bindings.map (·.1) ∧
          ∀ x v, f.bindings.get? x = some v → v ≠ .unassigned →
            ∃ w, f'.bindings.get? x = some w ∧ w.Proper) ∧
      ∀ x v, i.machine.heap.lookup globalFrame x = .ok v →
        ∃ w, j.machine.heap.lookup globalFrame x = .ok w ∧ w.Proper := by
  intro i
  have hstart : (placeholderInvariant initial).keeps (fresh limit).machine.heap :=
    ⟨.refl initial, holds_initial _⟩
  obtain ⟨hinitial, hholds⟩ := (placeholderInvariant initial).keeps_afterEntries hstart earlier
  refine ⟨?_, hholds, ?_⟩
  · intro entry vs hvs
    exact ((placeholderInvariant initial).reached_enter ⟨hinitial, hholds⟩ entry).ok vs hvs
  · intro later j
    obtain ⟨hsettles, hholds'⟩ :=
      (placeholderInvariant i.machine.heap).keeps_afterEntries ⟨.refl _, hholds⟩ later
    refine ⟨?_, ?_⟩
    · intro k f hf
      obtain ⟨f', hf', hgrows⟩ := hsettles k f hf
      refine ⟨f', hf', hgrows.names, ?_⟩
      intro x v hv hne
      obtain ⟨w, hw, hne'⟩ := hgrows.assigned x ⟨v, hv, hne⟩
      refine ⟨w, hw, ?_⟩
      exact (hholds' k f' hf' (x, w) (Bindings.mem_of_get? hw)).resolve_left hne'
    · intro x v hv
      -- the outermost frame is the first one, and it stays without an outer frame
      obtain ⟨f, hf, hgrows⟩ := hinitial globalFrame {} rfl
      obtain ⟨f', hf', hgrows'⟩ := hsettles globalFrame f hf
      have hassigned := (lookup_outermost hf hgrows.outer).mp ⟨v, hv⟩
      have houter : f'.outer = none := hgrows'.outer.trans hgrows.outer
      obtain ⟨w, hw⟩ := (lookup_outermost hf' houter).mpr (hgrows'.assigned x hassigned)
      exact ⟨w, hw, (hholds'.lookup hw).resolve_left (lookup_ne_unassigned hw)⟩

/-- A definition, and a failing one of another name that redefines the first one on the way:
the first name keeps its value. -/
theorem placeholder_never_escapes_failing_definition :
    let earlier : List Entry := [.program "(define x 1)"]
    let later : List Entry := [.program "(define y (define x y))", .line "(car"]
    ((fresh 9).afterEntries earlier).machine.heap.lookup globalFrame "x" = .ok (.int 1) ∧
      (∃ j, ((fresh 9).afterEntries earlier).evalText "(define y (define x y))" =
        (.error (.error (.usedBeforeDefined "y")), j)) ∧
      ∃ w, (((fresh 9).afterEntries earlier).afterEntries later).machine.heap.lookup
        globalFrame "x" = .ok w ∧ w.Proper := by
  intro earlier later
  let defined : Interpreter :=
    { machine := { heap := { frames := #[{ bindings := [("x", .int 1)] }] } }, depthLimit := 9 }
  have hparse : parse "(define x 1)" = .ok [.list [.keyword .define, .symbol "x", .int 1]] := rfl
  have hevalText : (fresh 9).evalText "(define x 1)" = (.ok .nil, defined) :=
    (evalText_eq_ok_iff hparse).mpr ⟨[.nil], rfl, rfl⟩
  have hdefined : (fresh 9).afterEntries earlier = defined := by
    simp only [earlier, afterEntries, List.foldl_cons, List.foldl_nil, enter, hevalText]
  have hlookup :
      ((fresh 9).afterEntries earlier).machine.heap.lookup globalFrame "x" = .ok (.int 1) := by
    rw [hdefined]
    rfl
  refine ⟨hlookup, ?_, ?_⟩
  · have hparse' : parse "(define y (define x y))" = .ok [.list [.keyword .define, .symbol "y",
        .list [.keyword .define, .symbol "x", .symbol "y"]]] := rfl
    rw [hdefined]
    exact ⟨_, (evalText_eq_error_iff hparse').mpr rfl⟩
  · obtain ⟨-, -, hlater⟩ := placeholder_never_escapes 9 earlier
    exact (hlater later).2 "x" _ hlookup

end Interpreter

end SmallScheme
