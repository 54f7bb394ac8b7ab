import Mathlib.Data.List.Pairwise
import SmallScheme.Proofs.Extents
import SmallScheme.Proofs.Findings

/-!
# Problems in the order of reading

The index collects problems in two passes, first the lexemes at fault and then the closing
parentheses with nothing to close, and sorts them by their positions. One pass through the
findings comes to the same: it keeps the depth and notes both kinds as it meets them.

* **`walk_cons`** — what one item does to a walk;
* **`flawsFrom`** — the one pass, and **`flawsFrom_append`** to take it in parts;
* **`mergeSort_flaws`** — sorting by positions gives the order of that pass, since
  positions come in the order of lexemes;
* **`Index.ofText_eq_ok_iff_flawsFrom`** — the index of a text, without sorting.
-/

namespace SmallScheme.Editor

/-! ## One item -/

namespace Item

/-- The number of lists around what follows an item. -/
def depthAfter (i : Item) (depth : Nat) : Nat :=
  match i.shape with
  | .opening => depth + 1
  | .closing => depth - 1
  | _ => depth

/-- A closing parenthesis with nothing to close. -/
def unmatched? (i : Item) (depth : Nat) : Option Flaw :=
  match i.shape with
  | .closing =>
    if depth = 0 then some { start := i.start, cause := .unmatchedClose, length := 1 } else none
  | _ => none

/-- The definition that an item starts at the top level, from the items after it. -/
def defined? (i : Item) (depth : Nat) (items : List Item) :
    Option (String × DefinitionKind × Nat) :=
  match i.shape with
  | .opening => if depth = 0 then definition? items else none
  | _ => none

theorem unmatched?_eq_some_iff {i : Item} {depth : Nat} {f : Flaw} :
    i.unmatched? depth = some f ↔
      i.shape = .closing ∧ depth = 0 ∧
        f = { start := i.start, cause := .unmatchedClose, length := 1 } := by
  obtain ⟨start, shape⟩ := i
  cases shape <;> simp [unmatched?, eq_comm]

end Item

/-- What one item does to a walk. -/
theorem walk_cons (depth : Nat) (i : Item) (items : List Item) :
    walk depth (i :: items) =
      { definitions := (i.defined? depth items).toList ++
          (walk (i.depthAfter depth) items).definitions
        unmatched := (i.unmatched? depth).toList ++ (walk (i.depthAfter depth) items).unmatched
        openLists := (walk (i.depthAfter depth) items).openLists } := by
  obtain ⟨start, shape⟩ := i
  cases shape with
  | opening =>
    by_cases hdepth : depth = 0
    · simp [walk, Item.defined?, Item.unmatched?, Item.depthAfter, hdepth]
    · simp [walk, Item.defined?, Item.unmatched?, Item.depthAfter, hdepth]
  | closing =>
    by_cases hdepth : depth = 0
    · simp [walk, Item.defined?, Item.unmatched?, Item.depthAfter, hdepth]
    · simp [walk, Item.defined?, Item.unmatched?, Item.depthAfter, hdepth]
  | string => rfl
  | word token => rfl

/-! ## One pass -/

namespace Finding

/-- The offset of a finding. -/
def start : Finding → Nat
  | .item i => i.start
  | .flaw f => f.start

/-- The offset up to which a finding is marked, if it is marked. -/
def stop : Finding → Nat
  | .item i => i.start + 1
  | .flaw f => f.start + f.length

/-- The same finding at another place. -/
def placed (start : Nat) : Finding → Finding
  | .item i => .item { i with start }
  | .flaw f => .flaw { f with start }

/-- The number of lists around what follows a finding. -/
def depthAfter (depth : Nat) : Finding → Nat
  | .item i => i.depthAfter depth
  | .flaw _ => depth

/-- What is wrong with a finding inside `depth` lists. -/
def flawAt? (depth : Nat) : Finding → Option Flaw
  | .item i => i.unmatched? depth
  | .flaw f => some f

end Finding

/-- What is wrong among findings inside `depth` lists, as it is met. -/
def flawsFrom (depth : Nat) : List Finding → List Flaw
  | [] => []
  | x :: found => (x.flawAt? depth).toList ++ flawsFrom (x.depthAfter depth) found

/-- The number of lists that stay open after findings inside `depth` lists. -/
def openAfter (depth : Nat) (found : List Finding) : Nat :=
  (walk depth (found.filterMap Finding.item?)).openLists

theorem openAfter_cons (depth : Nat) (x : Finding) (found : List Finding) :
    openAfter depth (x :: found) = openAfter (x.depthAfter depth) found := by
  cases x with
  | flaw f => rfl
  | item i =>
    show (walk depth (i :: found.filterMap Finding.item?)).openLists = _
    rw [walk_cons]
    rfl

theorem flawsFrom_append (depth : Nat) (xs ys : List Finding) :
    flawsFrom depth (xs ++ ys) = flawsFrom depth xs ++ flawsFrom (openAfter depth xs) ys := by
  induction xs generalizing depth with
  | nil => rfl
  | cons x xs ih =>
    rw [List.cons_append, flawsFrom, flawsFrom, ih, openAfter_cons, List.append_assoc]

/-- A flaw is met at a finding, and the lists around that depend on the findings before it. -/
theorem mem_flawsFrom_iff {depth : Nat} {found : List Finding} {f : Flaw} :
    f ∈ flawsFrom depth found ↔
      ∃ xs x ys, found = xs ++ x :: ys ∧ x.flawAt? (openAfter depth xs) = some f := by
  constructor
  · intro h
    induction found generalizing depth with
    | nil => cases h
    | cons x found ih =>
      rw [flawsFrom, List.mem_append, Option.mem_toList] at h
      rcases h with h | h
      · exact ⟨[], x, found, rfl, h⟩
      · obtain ⟨xs, y, ys, rfl, hy⟩ := ih h
        refine ⟨x :: xs, y, ys, rfl, ?_⟩
        rwa [openAfter_cons]
  · rintro ⟨xs, x, ys, rfl, hx⟩
    rw [flawsFrom_append, flawsFrom, hx]
    simp

/-- Both passes together find what the one pass does. -/
theorem perm_flawsFrom (depth : Nat) (found : List Finding) :
    (found.filterMap Finding.flaw? ++ (walk depth (found.filterMap Finding.item?)).unmatched).Perm
      (flawsFrom depth found) := by
  induction found generalizing depth with
  | nil => exact .nil
  | cons x found ih =>
    cases x with
    | flaw f => exact (ih depth).cons f
    | item i =>
      show (found.filterMap Finding.flaw? ++
        (walk depth (i :: found.filterMap Finding.item?)).unmatched).Perm _
      rw [walk_cons]
      exact (List.perm_append_comm_assoc _ _ _).trans ((ih (i.depthAfter depth)).append_left _)

/-! ## Findings in order -/

theorem Finding.extent_of_flawAt? {depth : Nat} {x : Finding} {f : Flaw}
    (h : x.flawAt? depth = some f) : f.start = x.start ∧ f.start + f.length = x.stop := by
  cases x with
  | item i =>
    obtain ⟨-, -, rfl⟩ := Item.unmatched?_eq_some_iff.mp h
    exact ⟨rfl, rfl⟩
  | flaw g =>
    cases h
    exact ⟨rfl, rfl⟩

/-- Flaws stand where the findings do. -/
theorem pairwise_flawsFrom {found : List Finding}
    (h : found.Pairwise (fun x y => x.stop ≤ y.start)) (depth : Nat) :
    (flawsFrom depth found).Pairwise (fun f g => f.start + f.length ≤ g.start) := by
  induction h generalizing depth with
  | nil => exact .nil
  | @cons x found hx _ ih =>
    rw [flawsFrom, List.pairwise_append]
    refine ⟨?_, ih _, ?_⟩
    · cases x.flawAt? depth with
      | none => exact .nil
      | some f => exact List.pairwise_singleton _ f
    · intro f hf g hg
      obtain ⟨xs, y, ys, rfl, hy⟩ := mem_flawsFrom_iff.mp hg
      obtain ⟨-, hstop⟩ := Finding.extent_of_flawAt? (Option.mem_toList.mp hf)
      obtain ⟨hstart, -⟩ := Finding.extent_of_flawAt? hy
      have hle := hx y (by simp)
      omega

/-- The flaws of single lexemes: strings without an end, and words that are no tokens. -/
theorem Finding.ofLocated_eq_flaw_iff {l : Located} {f : Flaw} :
    ofLocated l = .ok (.flaw f) ↔
      (∃ content, l.lexeme = .unterminated content ∧
        f = { start := l.start, cause := .unterminatedString,
              length := unterminatedLength content }) ∨
      ∃ w e, l.lexeme = .word w ∧ Token.ofWord (String.ofList w) = .error (.error e) ∧
        f = { start := l.start, cause := .unrecognized (String.ofList w), length := w.length } := by
  obtain ⟨start, lexeme⟩ := l
  cases lexeme with
  | word spelling =>
    cases hword : Token.ofWord (String.ofList spelling) with
    | ok t => simp [ofLocated, hword]
    | error fault =>
      cases fault with
      | error e => simp [ofLocated, hword, eq_comm]
      | oversized o => simp [ofLocated, hword]
  | unterminated content => simp [ofLocated, eq_comm]
  | _ => simp [ofLocated]

/-- Where a lexeme stands has no bearing on what it turns out to be. -/
theorem Finding.ofLocated_eq_map (l : Located) :
    ofLocated l = (ofLocated { l with start := 0 }).map (·.placed l.start) := by
  obtain ⟨start, lexeme⟩ := l
  cases lexeme with
  | word spelling =>
    simp only [ofLocated]
    cases Token.ofWord (String.ofList spelling) with
    | ok t => rfl
    | error fault => cases fault <;> rfl
  | _ => rfl

theorem Finding.exists_placed {l : Located} {x : Finding} (h : ofLocated l = .ok x) :
    ∃ y, ofLocated { l with start := 0 } = .ok y ∧ x = y.placed l.start := by
  rw [ofLocated_eq_map] at h
  cases hy : ofLocated { l with start := 0 } with
  | error o =>
    rw [hy] at h
    cases h
  | ok y =>
    rw [hy] at h
    cases h
    exact ⟨y, rfl, rfl⟩

theorem Finding.start_of_ofLocated {l : Located} {x : Finding} (h : ofLocated l = .ok x) :
    x.start = l.start := by
  obtain ⟨y, -, rfl⟩ := exists_placed h
  cases y <;> rfl

/-- The characters that are marked of a string without an end: they are on one line, and its
double quote is the first of them. -/
theorem exists_marked (content : List Char) :
    ∃ w rest, '"' :: content = w ++ rest ∧ w.length = Finding.unterminatedLength content ∧
      w.head? = some '"' ∧ ∀ c ∈ w, Text.isNewline c = false := by
  let line := '"' :: content.takeWhile (fun c => !Text.isNewline c)
  have hline : ∀ c ∈ line, Text.isNewline c = false := by
    refine List.forall_mem_cons.mpr ⟨rfl, fun c hc => ?_⟩
    simpa using List.mem_takeWhile_imp hc
  obtain ⟨trimmed, htrimmed⟩ : Text.trimEnd line <+: line := by
    have hsuffix := List.dropWhile_suffix (l := line.reverse) Text.isBlank
    rwa [← List.reverse_prefix, List.reverse_reverse] at hsuffix
  have hne : Text.trimEnd line ≠ [] := by
    rw [Text.trimEnd, ne_eq, List.reverse_eq_nil_iff, List.dropWhile_eq_nil_iff]
    intro hblank
    exact absurd (hblank '"' (by simp [line])) (by decide)
  refine ⟨Text.trimEnd line, trimmed ++ content.dropWhile (fun c => !Text.isNewline c), ?_, rfl,
    ?_, ?_⟩
  · rw [← List.append_assoc, htrimmed, List.cons_append, List.takeWhile_append_dropWhile]
  · have hhead : line.head? = some '"' := rfl
    rwa [← htrimmed, List.head?_append_of_ne_nil _ hne] at hhead
  · intro c hc
    exact hline c (htrimmed ▸ List.mem_append_left trimmed hc)

/-- A finding is inside its lexeme. -/
theorem Finding.bounds_of_ofLocated {l : Located} {x : Finding} (hl : l.lexeme.WellFormed)
    (h : ofLocated l = .ok x) : x.start = l.start ∧ x.start < x.stop ∧ x.stop ≤ l.stop := by
  have hstart := start_of_ofLocated h
  have hpos := List.length_pos_of_ne_nil (Lexeme.chars_ne_nil hl)
  refine ⟨hstart, ?_⟩
  cases x with
  | item i =>
    simp only [start, stop, Located.stop] at hstart ⊢
    omega
  | flaw f =>
    rcases ofLocated_eq_flaw_iff.mp h with ⟨content, hlexeme, rfl⟩ | ⟨w, e, hlexeme, -, rfl⟩
    · obtain ⟨w, rest, hparts, hlength, hhead, -⟩ := exists_marked content
      have hmarked := congrArg List.length hparts
      have hne : w ≠ [] := by
        rintro rfl
        cases hhead
      have hmarkedPos := List.length_pos_of_ne_nil hne
      simp only [start, stop, Located.stop, hlexeme, Lexeme.chars, List.length_cons,
        List.length_append] at hmarked ⊢
      omega
    · simp only [start, stop, Located.stop, hlexeme, Lexeme.chars] at hpos ⊢
      omega

theorem exists_located_of_mem {ls : List Located} {found : List Finding} {x : Finding}
    (h : ls.mapM Finding.ofLocated = .ok found) (hx : x ∈ found) :
    ∃ l ∈ ls, Finding.ofLocated l = .ok x := by
  have hmem : .ok x ∈ ls.map Finding.ofLocated := by
    rw [mapM_eq_ok_iff.mp h]
    exact List.mem_map_of_mem hx
  exact List.mem_map.mp hmem

theorem pairwise_found {ls : List Located} {found : List Finding}
    (h : ls.mapM Finding.ofLocated = .ok found) (hls : ∀ l ∈ ls, l.lexeme.WellFormed)
    (hpairwise : ls.Pairwise (fun l m => l.stop ≤ m.start)) :
    found.Pairwise (fun x y => x.stop ≤ y.start) := by
  induction hpairwise generalizing found with
  | nil =>
    cases h
    exact .nil
  | @cons l ls hl _ ih =>
    obtain ⟨x, found, hx, hfound, rfl⟩ := mapM_cons_eq_ok_iff.mp h
    obtain ⟨hfirst, hrest⟩ := List.forall_mem_cons.mp hls
    refine .cons ?_ (ih hfound hrest)
    intro y hy
    obtain ⟨m, hm, hym⟩ := exists_located_of_mem hfound hy
    obtain ⟨-, -, hstop⟩ := Finding.bounds_of_ofLocated hfirst hx
    have hle := hl m hm
    rw [Finding.start_of_ofLocated hym]
    omega

variable {cs : List Char} {found : List Finding}

theorem Flaw.problem_of_pos {f : Flaw} (hpos : 0 < f.length) :
    f.problem cs = { cause := f.cause, position := positionAt cs f.start, length := f.length } := by
  rw [Flaw.problem, Nat.max_eq_left hpos]

/-- Each flaw has at least one character of the text, and ends before the next one starts. -/
theorem pairwise_flaws (h : (locatedLexemes cs).mapM Finding.ofLocated = .ok found) :
    (flawsFrom 0 found).Pairwise (fun f g => f.start + f.length ≤ g.start) ∧
      ∀ f ∈ flawsFrom 0 found, 0 < f.length ∧ f.start + f.length ≤ cs.length := by
  have hwell : ∀ l ∈ locatedLexemes cs, l.lexeme.WellFormed := fun l hl =>
    wellFormed_of_mem_lexemes (List.mem_map_of_mem hl)
  refine ⟨pairwise_flawsFrom (pairwise_found h hwell (pairwise_locatedLexemes cs)) 0, ?_⟩
  intro f hf
  obtain ⟨xs, x, ys, rfl, hx⟩ := mem_flawsFrom_iff.mp hf
  obtain ⟨l, hl, hxl⟩ := exists_located_of_mem h (x := x) (by simp)
  obtain ⟨hstart, hstop⟩ := Finding.extent_of_flawAt? hx
  obtain ⟨-, hpos, hle⟩ := Finding.bounds_of_ofLocated (hwell l hl) hxl
  have hbound := (bounds_of_mem hl).2.2
  omega

/-- The positions of problems come in the order of the flaws, and on one line each problem is to
the right of what the one before it covers. -/
theorem pairwise_problems (h : (locatedLexemes cs).mapM Finding.ofLocated = .ok found) :
    ((flawsFrom 0 found).map (·.problem cs)).Pairwise (fun p q =>
      p.position.before q.position ∧
        (p.position.line = q.position.line →
          p.position.column + p.length ≤ q.position.column)) := by
  obtain ⟨hpairwise, hbounds⟩ := pairwise_flaws h
  rw [List.pairwise_map]
  refine hpairwise.imp_of_mem fun {f g} hf hg hle => ?_
  obtain ⟨hposf, -⟩ := hbounds f hf
  obtain ⟨hposg, hstop⟩ := hbounds g hg
  have hstart : f.start < g.start := by omega
  have hinside : g.start ≤ cs.length := by omega
  rw [Flaw.problem_of_pos hposf, Flaw.problem_of_pos hposg]
  refine ⟨positionAt_before hstart hinside, fun hline => ?_⟩
  dsimp only at hline ⊢
  have hpositions := positionAt_of_le hstart.le hinside
  omega

/-- Sorting by positions gives the flaws in the order of reading. -/
theorem mergeSort_flaws (h : (locatedLexemes cs).mapM Finding.ofLocated = .ok found) :
    ((found.filterMap Finding.flaw? ++ (walk 0 (found.filterMap Finding.item?)).unmatched).map
      (·.problem cs)).mergeSort (fun p q => !q.position.before p.position) =
    (flawsFrom 0 found).map (·.problem cs) := by
  have hpairwise := (pairwise_problems h).imp And.left
  have hperm := (perm_flawsFrom 0 found).map (·.problem cs)
  refine List.Perm.eq_of_pairwise ?_ (List.pairwise_mergeSort ?_ ?_ _) (hpairwise.imp ?_)
    ((List.mergeSort_perm _ _).trans hperm)
  · -- of two problems one is before the other, whichever
    intro p q hp hq hle hge
    rw [List.mem_mergeSort, hperm.mem_iff] at hp
    have hother : ((flawsFrom 0 found).map (·.problem cs)).Pairwise
        (fun p q => p.position.before q.position ∨ q.position.before p.position) :=
      hpairwise.imp .inl
    have : Std.Symm (fun p q : Problem =>
        p.position.before q.position ∨ q.position.before p.position) := ⟨fun _ _ => .symm⟩
    by_contra hne
    rcases hother.forall hp hq hne with hbefore | hbefore
    · simp [hbefore] at hge
    · simp [hbefore] at hle
  · intro p q r hpq hqr
    rw [Position.not_before_iff] at hpq hqr ⊢
    omega
  · intro p q
    rw [Bool.or_eq_true, Position.not_before_iff, Position.not_before_iff]
    omega
  · intro p q hbefore
    rw [Position.before_iff] at hbefore
    rw [Position.not_before_iff]
    omega

/-- The index of a text, without sorting. -/
theorem Index.ofText_eq_ok_iff_flawsFrom {text : String} {index : Index} :
    Index.ofText text = .ok index ↔
      ∃ found, (locatedLexemes text.toList).mapM Finding.ofLocated = .ok found ∧
        index =
          let walked := walk 0 (found.filterMap Finding.item?)
          { definitions := collectDefinitions text.toList walked.definitions
            problems := (flawsFrom 0 found).map (·.problem text.toList)
            openLists := walked.openLists } := by
  rw [Index.ofText_eq_ok_iff]
  refine exists_congr fun found => and_congr_right fun hfound => ?_
  dsimp only
  rw [mergeSort_flaws hfound]

end SmallScheme.Editor
