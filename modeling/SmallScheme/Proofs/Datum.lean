import Mathlib.Logic.Function.Basic
import SmallScheme.Datum.Text

/-!
# Data under a renaming

Three things that the results about evaluation share: induction over data, the
condition that every procedure inside a datum satisfies a predicate, and renaming
the symbols and the frames of a datum.

* **`rename_congr`** — renamings that agree on the frames of a datum rename it alike, so
  one that fixes the frames below `n` fixes every datum whose procedures were made in them
  (`rename_of_within`);
* **`render_rename`**, **`describe_rename`**, **`inspect_rename`** — texts do not show
  frames, so they are the same as long as no symbol is renamed.
-/

namespace SmallScheme

/-! ## Pairs of outcomes -/

/-- Both computations succeed with related results, or both fail with related causes. -/
inductive Paired {ε ε' α α' : Type} (E : ε → ε' → Prop) (R : α → α' → Prop) :
    Except ε α → Except ε' α' → Prop
  | ok {a a'} : R a a' → Paired E R (.ok a) (.ok a')
  | error {e e'} : E e e' → Paired E R (.error e) (.error e')

theorem Paired.imp {ε ε' α α' : Type} {E : ε → ε' → Prop} {R Q : α → α' → Prop}
    {x : Except ε α} {x' : Except ε' α'} (h : Paired E R x x')
    (hRQ : ∀ a a', R a a' → Q a a') : Paired E Q x x' := by
  cases h with
  | ok h => exact .ok (hRQ _ _ h)
  | error h => exact .error h

theorem Paired.bind {ε ε' α α' β β' : Type} {E : ε → ε' → Prop} {R : α → α' → Prop}
    {Q : β → β' → Prop} {x : Except ε α} {x' : Except ε' α'} {f : α → Except ε β}
    {f' : α' → Except ε' β'} (hx : Paired E R x x')
    (hf : ∀ a a', R a a' → Paired E Q (f a) (f' a')) : Paired E Q (x >>= f) (x' >>= f') := by
  cases hx with
  | ok h => exact hf _ _ h
  | error h => exact .error h

namespace Datum

/-! ## Induction -/

/-- Induction over data: a list from its items, a procedure from its parameters and its
body. -/
theorem treeInduction {P : Datum → Prop} (number : ∀ n, P (.number n)) (bool : ∀ b, P (.bool b))
    (str : ∀ s, P (.str s)) (symbol : ∀ x, P (.symbol x)) (keyword : ∀ k, P (.keyword k))
    (operator : ∀ o, P (.operator o)) (list : ∀ items, (∀ d ∈ items, P d) → P (.list items))
    (closure : ∀ formals body frame, (∀ d ∈ formals, P d) → P body →
      P (.closure formals body frame))
    (nil : P .nil) (unassigned : P .unassigned) (absent : P .absent) (d : Datum) : P d := by
  refine Datum.rec (motive_1 := P) (motive_2 := fun ds => ∀ d ∈ ds, P d)
    number bool str symbol keyword operator list closure nil unassigned absent ?_ ?_ d
  · intro d hd
    exact absurd hd List.not_mem_nil
  · intro head tail hhead htail d hd
    rcases List.mem_cons.mp hd with rfl | hd
    · exact hhead
    · exact htail d hd

/-! ## Procedures inside data -/

mutual

/-- Every procedure in a datum satisfies `P`, those in the parameters and the body of
another one included. -/
def EveryClosure (P : List Datum → Datum → FrameId → Prop) : Datum → Prop
  | .list items => EveryClosureEach P items
  | .closure formals body frame =>
    P formals body frame ∧ EveryClosureEach P formals ∧ EveryClosure P body
  | _ => True

/-- Every procedure in data satisfies `P`. -/
def EveryClosureEach (P : List Datum → Datum → FrameId → Prop) : List Datum → Prop
  | [] => True
  | d :: ds => EveryClosure P d ∧ EveryClosureEach P ds

end

variable {P Q : List Datum → Datum → FrameId → Prop}

theorem everyClosureEach_iff (ds : List Datum) :
    EveryClosureEach P ds ↔ ∀ d ∈ ds, EveryClosure P d := by
  induction ds with
  | nil => simp [EveryClosureEach]
  | cons d ds ih => simp [EveryClosureEach, ih]

theorem everyClosure_list (items : List Datum) :
    EveryClosure P (.list items) ↔ ∀ d ∈ items, EveryClosure P d := by
  rw [EveryClosure, everyClosureEach_iff]

theorem everyClosure_closure (formals : List Datum) (body : Datum) (frame : FrameId) :
    EveryClosure P (.closure formals body frame) ↔
      P formals body frame ∧ (∀ d ∈ formals, EveryClosure P d) ∧ EveryClosure P body := by
  rw [EveryClosure, everyClosureEach_iff]

theorem EveryClosure.mono (hPQ : ∀ formals body frame, P formals body frame → Q formals body frame)
    {d : Datum} (hd : EveryClosure P d) : EveryClosure Q d := by
  induction d using treeInduction with
  | list items ih =>
    rw [everyClosure_list] at hd ⊢
    exact fun d hmem => ih d hmem (hd d hmem)
  | closure formals body frame ihFormals ihBody =>
    rw [everyClosure_closure] at hd ⊢
    obtain ⟨hP, hformals, hbody⟩ := hd
    exact ⟨hPQ _ _ _ hP, fun d hmem => ihFormals d hmem (hformals d hmem), ihBody hbody⟩
  | _ => trivial

/-- Every procedure in a datum was made in one of the first `n` frames. -/
def Within (n : Nat) (d : Datum) : Prop :=
  d.EveryClosure fun _ _ frame => frame < n

theorem Within.mono {n n' : Nat} (hn : n ≤ n') {d : Datum} (hd : d.Within n) : d.Within n' :=
  EveryClosure.mono (fun _ _ _ hlt => Nat.lt_of_lt_of_le hlt hn) hd

end Datum

/-! ## Renaming -/

/-- New names for symbols and new numbers for frames. -/
structure Renaming where
  name : String → String := id
  frame : FrameId → FrameId := id

namespace Datum

mutual

/-- Rename the symbols and the frames of a datum. -/
def rename (r : Renaming) : Datum → Datum
  | .number n => .number n
  | .bool b => .bool b
  | .str text => .str text
  | .symbol x => .symbol (r.name x)
  | .keyword k => .keyword k
  | .operator o => .operator o
  | .list items => .list (renameEach r items)
  | .closure formals body frame =>
    .closure (renameEach r formals) (rename r body) (r.frame frame)
  | .nil => .nil
  | .unassigned => .unassigned
  | .absent => .absent

/-- Rename data, in order. -/
def renameEach (r : Renaming) : List Datum → List Datum
  | [] => []
  | d :: ds => rename r d :: renameEach r ds

end

theorem renameEach_eq_map (r : Renaming) (ds : List Datum) :
    renameEach r ds = ds.map (rename r) := by
  induction ds with
  | nil => rfl
  | cons d ds ih => rw [renameEach, ih, List.map_cons]

theorem rename_list (r : Renaming) (items : List Datum) :
    (Datum.list items).rename r = .list (items.map (rename r)) := by
  rw [rename, renameEach_eq_map]

theorem rename_closure (r : Renaming) (formals : List Datum) (body : Datum) (frame : FrameId) :
    (Datum.closure formals body frame).rename r =
      .closure (formals.map (rename r)) (body.rename r) (r.frame frame) := by
  rw [rename, renameEach_eq_map]

/-- Renamings that agree on the frames in which the procedures of a datum were made rename it
alike. -/
theorem rename_congr {r r' : Renaming} (hname : r.name = r'.name) {d : Datum}
    (hd : d.EveryClosure fun _ _ frame => r.frame frame = r'.frame frame) :
    d.rename r = d.rename r' := by
  induction d using treeInduction with
  | symbol x => rw [rename, rename, hname]
  | list items ih =>
    rw [everyClosure_list] at hd
    have hitems : items.map (rename r) = items.map (rename r') :=
      List.map_congr_left fun d hmem => ih d hmem (hd d hmem)
    rw [rename_list, rename_list, hitems]
  | closure formals body frame ihFormals ihBody =>
    rw [everyClosure_closure] at hd
    obtain ⟨hframe, hformals, hbody⟩ := hd
    have hmap : formals.map (rename r) = formals.map (rename r') :=
      List.map_congr_left fun d hmem => ihFormals d hmem (hformals d hmem)
    rw [rename_closure, rename_closure, hmap, ihBody hbody, hframe]
  | _ => rfl

theorem rename_id (d : Datum) : d.rename {} = d := by
  induction d using treeInduction with
  | list items ih =>
    have hitems : items.map (rename {}) = items.map id :=
      List.map_congr_left fun d hmem => ih d hmem
    rw [rename_list, hitems, List.map_id]
  | closure formals body frame ihFormals ihBody =>
    have hmap : formals.map (rename {}) = formals.map id :=
      List.map_congr_left fun d hmem => ihFormals d hmem
    rw [rename_closure, hmap, List.map_id, ihBody]
    rfl
  | _ => rfl

/-- A datum whose procedures were made in frames that keep their numbers stays as it is. -/
theorem rename_of_within {r : Renaming} {n : Nat} (hname : r.name = id)
    (hframe : ∀ i < n, r.frame i = i) {d : Datum} (hd : d.Within n) : d.rename r = d := by
  have hsame : d.rename r = d.rename {} :=
    rename_congr hname (EveryClosure.mono (fun _ _ i hi => hframe i hi) hd)
  rw [hsame, rename_id]

/-! ### What is read off a datum -/

theorem symbol?_rename (r : Renaming) (d : Datum) :
    (d.rename r).symbol? = d.symbol?.map r.name := by
  cases d <;> rfl

theorem items?_rename (r : Renaming) (d : Datum) :
    (d.rename r).items? = d.items?.map (List.map (rename r)) := by
  cases d with
  | list items => rw [rename_list]; rfl
  | _ => rfl

theorem number?_rename (r : Renaming) (d : Datum) : (d.rename r).number? = d.number? := by
  cases d <;> rfl

theorem bool?_rename (r : Renaming) (d : Datum) : (d.rename r).bool? = d.bool? := by
  cases d <;> rfl

theorem isTruthy_rename (r : Renaming) (d : Datum) : (d.rename r).isTruthy = d.isTruthy := by
  cases d <;> rfl

end Datum

/-! ## Texts -/

/-- It is an integer that was to be written as text. -/
def Oversized.IsWritten : Oversized → Prop
  | .literal .. => False
  | .written .. => True

theorem Number.isWritten_of_text {n : Number} {o : Oversized} (h : n.text = .error o) :
    o.IsWritten := by
  cases n with
  | int n =>
    rw [text, intText] at h
    by_cases hlarge : n.natAbs < Nat.pow 10 digitLimit
    · rw [dif_pos hlarge] at h
      exact absurd h (by simp)
    · rw [dif_neg hlarge] at h
      rw [← Except.error.inj h]
      trivial
  | real x => cases h

namespace Datum

/-- Equal, unless symbols are renamed. -/
def SameUnder (r : Renaming) {α : Type} (a a' : α) : Prop :=
  r.name = id → a = a'

theorem SameUnder.rfl {r : Renaming} {α : Type} {a : α} : SameUnder r a a :=
  fun _ => Eq.refl a

theorem SameUnder.map {r : Renaming} {α β : Type} {a a' : α} (f : α → β) (h : SameUnder r a a') :
    SameUnder r (f a) (f a') :=
  fun hname => congrArg f (h hname)

/-- Texts of a datum and of its renaming: both are there, and the same unless symbols are
renamed, or the same integer has too many digits to be written in both. -/
abbrev SameText (r : Renaming) {α : Type} : Except Oversized α → Except Oversized α → Prop :=
  Paired (fun o o' => o = o' ∧ o.IsWritten) (SameUnder r)

theorem SameText.map {r : Renaming} {α β : Type} {t t' : Except Oversized α} (f : α → β)
    (h : SameText r t t') :
    SameText r (do return f (← t)) (do return f (← t')) :=
  h.bind fun _ _ ha => .ok (ha.map f)

theorem SameText.eq {r : Renaming} {α : Type} {t t' : Except Oversized α} (hname : r.name = id)
    (h : SameText r t t') : t = t' := by
  cases h with
  | ok h => rw [h hname]
  | error h => rw [h.1]

/-- The texts of a list, from those of its items. -/
theorem SameText.cons {r : Renaming} {t t' : Except Oversized String}
    {ts ts' : Except Oversized (List String)} (h : SameText r t t') (hs : SameText r ts ts') :
    SameText r (do return (← t) :: (← ts)) (do return (← t') :: (← ts')) :=
  h.bind fun _ _ ha => hs.bind fun _ _ has => .ok fun hname => by rw [ha hname, has hname]

theorem sameText_symbol (r : Renaming) (f : String → String) (x : String) :
    SameText r (.ok (f x)) (.ok (f (r.name x))) :=
  .ok fun hname => by rw [hname]; rfl

theorem describe_rename_of_inspect {r : Renaming} {d : Datum}
    (h : SameText r d.inspect (d.rename r).inspect) :
    SameText r d.describe (d.rename r).describe := by
  cases d with
  | str text => exact .ok .rfl
  | symbol x => exact sameText_symbol r id x
  | keyword k => exact .ok .rfl
  | operator o => exact .ok .rfl
  | _ => exact h

theorem inspectEach_rename {r : Renaming} {ds : List Datum}
    (h : ∀ d ∈ ds, SameText r d.inspect (d.rename r).inspect) :
    SameText r (inspectEach ds) (inspectEach (ds.map (rename r))) := by
  induction ds with
  | nil => exact .ok .rfl
  | cons d ds ih =>
    exact (h d List.mem_cons_self).cons (ih fun d' hd' => h d' (List.mem_cons_of_mem d hd'))

theorem describeEach_cons (d : Datum) (ds : List Datum) :
    describeEach (d :: ds) = do return (← d.describe) :: (← describeEach ds) := by
  rw [describeEach, describe]
  cases d.plain? <;> rfl

theorem describeEach_rename {r : Renaming} {ds : List Datum}
    (h : ∀ d ∈ ds, SameText r d.inspect (d.rename r).inspect) :
    SameText r (describeEach ds) (describeEach (ds.map (rename r))) := by
  induction ds with
  | nil => exact .ok .rfl
  | cons d ds ih =>
    rw [List.map_cons, describeEach_cons, describeEach_cons]
    exact (describe_rename_of_inspect (h d List.mem_cons_self)).cons
      (ih fun d' hd' => h d' (List.mem_cons_of_mem d hd'))

theorem inspect_rename (r : Renaming) (d : Datum) : SameText r d.inspect (d.rename r).inspect := by
  induction d using treeInduction with
  | number n =>
    show SameText r n.text n.text
    cases htext : n.text with
    | ok s => exact .ok .rfl
    | error o => exact .error ⟨rfl, Number.isWritten_of_text htext⟩
  | symbol x => exact sameText_symbol r (fun x => "Symbol(" ++ Text.quoted x ++ ")") x
  | list items ih =>
    rw [rename_list]
    exact (inspectEach_rename ih).map fun ts => "[" ++ ", ".intercalate ts ++ "]"
  | closure formals body frame ihFormals _ =>
    rw [rename_closure]
    exact (describeEach_rename ihFormals).map fun ts => "#<closure (" ++ " ".intercalate ts ++ ")>"
  | _ => exact .ok .rfl

theorem describe_rename (r : Renaming) (d : Datum) : SameText r d.describe (d.rename r).describe :=
  describe_rename_of_inspect (inspect_rename r d)

theorem renderEach_rename {r : Renaming} {ds : List Datum}
    (h : ∀ d ∈ ds, SameText r d.render (d.rename r).render) :
    SameText r (renderEach ds) (renderEach (ds.map (rename r))) := by
  induction ds with
  | nil => exact .ok .rfl
  | cons d ds ih =>
    exact (h d List.mem_cons_self).cons (ih fun d' hd' => h d' (List.mem_cons_of_mem d hd'))

theorem render_rename (r : Renaming) (d : Datum) : SameText r d.render (d.rename r).render := by
  induction d using treeInduction with
  | symbol x => exact sameText_symbol r id x
  | list items ih =>
    rw [rename_list]
    exact (renderEach_rename ih).map fun ts => "(" ++ " ".intercalate ts ++ ")"
  | number n => exact inspect_rename r (.number n)
  | closure formals body frame _ _ => exact inspect_rename r (.closure formals body frame)
  | _ => exact .ok .rfl

theorem isWritten_of_render {d : Datum} {o : Oversized} (h : d.render = .error o) :
    o.IsWritten := by
  have hsame := render_rename {} d
  rw [rename_id, h] at hsame
  cases hsame with
  | error hwritten => exact hwritten.2

theorem isWritten_of_describe {d : Datum} {o : Oversized} (h : d.describe = .error o) :
    o.IsWritten := by
  have hsame := describe_rename {} d
  rw [rename_id, h] at hsame
  cases hsame with
  | error hwritten => exact hwritten.2

end Datum

end SmallScheme
