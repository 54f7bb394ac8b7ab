import Mathlib.Algebra.Order.Ring.Int
import Mathlib.Order.Bounds.Basic
import SmallScheme.Proofs.ReadingOrder

/-!
# Parentheses with nothing to close

Count 1 for each opening parenthesis outside strings and -1 for each closing one, and sum up.
The walk through the items keeps a depth that never falls below zero, so it is the sum above
the lowest sum so far, and a parenthesis has nothing to close where the sum reaches a new low.

* **`parentheses`** — the parentheses outside strings, told without the scanner;
* **`parentheses_eq`** — they are the ones that the scanner finds;
* **`Reckons`**, **`reckons_walk`** — a walk and the sums of the parentheses that it passes;
* **`unmatched_at_new_lows`** — the index of any text.
-/

namespace SmallScheme

/-! ## The parentheses of a text -/

/-- A parenthesis: where it stands, and by how much it changes the number of open lists. -/
structure Parenthesis where
  start : Nat
  change : Int

/-- The parentheses of a text from an offset on. Each double quote leads into a string or out
of one, and there are none inside strings. -/
def parenthesesFrom (offset : Nat) (quoted : Bool) : List Char → List Parenthesis
  | [] => []
  | c :: cs =>
    let rest := parenthesesFrom (offset + 1) (quoted ^^ (c == '"')) cs
    if quoted then rest
    else if c = '(' then ⟨offset, 1⟩ :: rest
    else if c = ')' then ⟨offset, -1⟩ :: rest
    else rest

/-- The parentheses of a text. -/
def parentheses (cs : List Char) : List Parenthesis :=
  parenthesesFrom 0 false cs

/-- By how much parentheses change the number of open lists. -/
def Parenthesis.total (ps : List Parenthesis) : Int :=
  (ps.map (·.change)).sum

namespace Parenthesis

@[simp] theorem total_nil : total [] = 0 := rfl

@[simp] theorem total_cons (p : Parenthesis) (ps : List Parenthesis) :
    total (p :: ps) = p.change + total ps := rfl

@[simp] theorem total_append (ps qs : List Parenthesis) :
    total (ps ++ qs) = total ps + total qs := by
  simp [total]

/-- Counted from `depth`, no first part of the parentheses comes down to `low`. -/
def StaysAbove (low depth : Int) (ps : List Parenthesis) : Prop :=
  ∀ qs, qs <+: ps → low < depth + total qs

theorem staysAbove_nil {low depth : Int} : StaysAbove low depth [] ↔ low < depth := by
  simp [StaysAbove, List.prefix_nil]

theorem staysAbove_cons {low depth : Int} {p : Parenthesis} {ps : List Parenthesis} :
    StaysAbove low depth (p :: ps) ↔ low < depth ∧ StaysAbove low (depth + p.change) ps := by
  constructor
  · intro h
    refine ⟨by simpa using h [] List.nil_prefix, fun qs hqs => ?_⟩
    have hcons := h (p :: qs) ((List.prefix_cons_inj p).mpr hqs)
    rw [total_cons] at hcons
    omega
  · rintro ⟨hlow, h⟩ qs hqs
    rcases List.prefix_cons_iff.mp hqs with rfl | ⟨rs, rfl, hrs⟩
    · rwa [total_nil, add_zero]
    · have htail := h rs hrs
      rw [total_cons]
      omega

/-- Only the distance between the two matters. -/
theorem StaysAbove.lower {low depth : Int} {ps : List Parenthesis} (h : StaysAbove low depth ps)
    (k : Int) : StaysAbove (low - k) (depth - k) ps := by
  intro qs hqs
  have habove := h qs hqs
  omega

end Parenthesis

/-- At the place of a closing parenthesis stands one. -/
theorem closing_of_mem {cs : List Char} {offset start : Nat} {quoted : Bool}
    (h : ⟨start, -1⟩ ∈ parenthesesFrom offset quoted cs) :
    offset ≤ start ∧ cs[start - offset]? = some ')' := by
  induction cs generalizing offset quoted with
  | nil => cases h
  | cons c cs ih =>
    have hrest (h : ⟨start, -1⟩ ∈ parenthesesFrom (offset + 1) (quoted ^^ (c == '"')) cs) :
        offset ≤ start ∧ (c :: cs)[start - offset]? = some ')' := by
      obtain ⟨hle, hget⟩ := ih h
      refine ⟨by omega, ?_⟩
      rw [show start - offset = start - (offset + 1) + 1 by omega, List.getElem?_cons_succ, hget]
    rw [parenthesesFrom] at h
    split_ifs at h with hquoted hopening hclosing
    · exact hrest h
    · rcases List.mem_cons.mp h with heq | h
      · cases heq
      · exact hrest h
    · rcases List.mem_cons.mp h with heq | h
      · cases heq
        exact ⟨le_rfl, by simp [hclosing]⟩
      · exact hrest h
    · exact hrest h

theorem parenthesesFrom_quoted_run (offset : Nat) {w : List Char} (hw : '"' ∉ w)
    (rest : List Char) :
    parenthesesFrom offset true (w ++ rest) = parenthesesFrom (offset + w.length) true rest := by
  induction w generalizing offset with
  | nil => rfl
  | cons c w ih =>
    rw [List.mem_cons, not_or] at hw
    have hquote : (c == '"') = false := beq_false_of_ne (Ne.symm hw.1)
    rw [List.cons_append, parenthesesFrom, if_pos rfl, hquote, Bool.xor_false, ih _ hw.2,
      List.length_cons, Nat.add_assoc, Nat.add_comm 1]

/-- A character that is neither a double quote nor a parenthesis is passed over. -/
theorem parenthesesFrom_cons_other (offset : Nat) {c : Char} (hopening : c ≠ '(')
    (hclosing : c ≠ ')') (hquote : c ≠ '"') (rest : List Char) :
    parenthesesFrom offset false (c :: rest) = parenthesesFrom (offset + 1) false rest := by
  rw [parenthesesFrom, if_neg Bool.false_ne_true, if_neg hopening, if_neg hclosing,
    beq_false_of_ne hquote, Bool.xor_false]

theorem parenthesesFrom_quote (offset : Nat) (quoted : Bool) (rest : List Char) :
    parenthesesFrom offset quoted ('"' :: rest) = parenthesesFrom (offset + 1) (!quoted) rest := by
  cases quoted <;> simp [parenthesesFrom]

theorem parenthesesFrom_word (offset : Nat) {w : List Char} (hw : ∀ c ∈ w, isWordChar c)
    (rest : List Char) :
    parenthesesFrom offset false (w ++ rest) = parenthesesFrom (offset + w.length) false rest := by
  induction w generalizing offset with
  | nil => rfl
  | cons c w ih =>
    obtain ⟨hc, hw⟩ := List.forall_mem_cons.mp hw
    simp only [isWordChar, Bool.and_eq_true, bne_iff_ne, ne_eq] at hc
    rw [List.cons_append, parenthesesFrom_cons_other _ hc.1.1.1 hc.1.1.2 hc.1.2, ih _ hw,
      List.length_cons, Nat.add_assoc, Nat.add_comm 1]

/-- The parenthesis that a lexeme is. -/
def Located.parenthesis? (l : Located) : Option Parenthesis :=
  match l.lexeme with
  | .opening => some ⟨l.start, 1⟩
  | .closing => some ⟨l.start, -1⟩
  | _ => none

/-- The parentheses of a text are those that the scanner finds. -/
theorem parenthesesFrom_eq (offset : Nat) (cs : List Char) :
    parenthesesFrom offset false cs =
      (locatedFrom offset .between cs).filterMap Located.parenthesis? := by
  induction cs using lexemeInduction generalizing offset with
  | nil => rfl
  | blank c cs hc ih =>
    rw [locatedFrom_blank _ _ hc, parenthesesFrom_cons_other _ (Text.ne_of_isBlank hc rfl)
      (Text.ne_of_isBlank hc rfl) (Text.ne_of_isBlank hc rfl), ih]
  | lexeme l rest hl hrest ih =>
    rw [locatedFrom_chars offset hl hrest, List.filterMap_cons, ← ih]
    cases l with
    | opening => rfl
    | closing => rfl
    | quoted content =>
      show parenthesesFrom offset false ('"' :: (content ++ ['"'] ++ rest)) =
        parenthesesFrom (offset + (content ++ ['"']).length.succ) false rest
      rw [parenthesesFrom_quote, List.append_assoc, Bool.not_false,
        parenthesesFrom_quoted_run _ hl, List.singleton_append, parenthesesFrom_quote,
        List.length_append]
      congr 1
      rw [List.length_singleton]
      omega
    | unterminated content =>
      obtain rfl : rest = [] := hrest
      show parenthesesFrom offset false ('"' :: (content ++ [])) = []
      rw [parenthesesFrom_quote, Bool.not_false, parenthesesFrom_quoted_run _ hl]
      rfl
    | word spelling => exact parenthesesFrom_word offset hl.2 rest

theorem parentheses_eq (cs : List Char) :
    parentheses cs = (locatedLexemes cs).filterMap Located.parenthesis? :=
  parenthesesFrom_eq 0 cs

namespace Editor

/-! ## A walk and its sums -/

/-- The parenthesis that an item is. -/
def Item.parenthesis? (i : Item) : Option Parenthesis :=
  match i.shape with
  | .opening => some ⟨i.start, 1⟩
  | .closing => some ⟨i.start, -1⟩
  | _ => none

open Parenthesis (total StaysAbove staysAbove_nil staysAbove_cons)

/-- What a walk from inside `depth` lists finds out about the parentheses that it passes. The
depth counts in all sums. -/
structure Reckons (depth : Int) (ps : List Parenthesis) (w : Walk) : Prop where
  /-- The lists that stay open are the sum above the lowest sum. -/
  openLists : (w.openLists : Int) = depth + total ps + w.unmatched.length
  lowest : StaysAbove (-(w.unmatched.length + 1)) depth ps
  /-- Each parenthesis with nothing to close is where its number is first reached. -/
  reached : ∀ (k : Nat) (f : Flaw), w.unmatched[k]? = some f →
    ∃ before after, ps = before ++ ⟨f.start, -1⟩ :: after ∧
      depth + total (before ++ [⟨f.start, -1⟩]) = -(k + 1) ∧ StaysAbove (-(k + 1)) depth before

namespace Reckons

variable {depth : Int} {ps : List Parenthesis} {w : Walk}

/-- A parenthesis that does not lead out of the top level. -/
theorem cons {p : Parenthesis} (hdepth : 0 ≤ depth) (h : Reckons (depth + p.change) ps w) :
    Reckons depth (p :: ps) w := by
  refine ⟨?_, staysAbove_cons.mpr ⟨by omega, h.lowest⟩, ?_⟩
  · rw [h.openLists, Parenthesis.total_cons]
    omega
  · intro k f hf
    obtain ⟨before, after, rfl, hlow, habove⟩ := h.reached k f hf
    refine ⟨p :: before, after, rfl, ?_, staysAbove_cons.mpr ⟨by omega, habove⟩⟩
    rw [List.cons_append, Parenthesis.total_cons]
    omega

/-- A parenthesis that does, the first with nothing to close. The sums after it are lower by
one than the walk would have them. -/
theorem unmatched (h : Reckons 0 ps w) (f : Flaw) :
    Reckons 0 (⟨f.start, -1⟩ :: ps) { w with unmatched := f :: w.unmatched } := by
  -- the sums after it start from -1, so all of them are lower by 1
  have hlower {low low' : Int} {qs : List Parenthesis} (habove : StaysAbove low 0 qs)
      (hlow : low' < 0) (heq : low' = low - 1) : StaysAbove low' 0 (⟨f.start, -1⟩ :: qs) := by
    rw [staysAbove_cons, heq]
    exact ⟨heq ▸ hlow, habove.lower 1⟩
  refine ⟨?_, ?_, ?_⟩
  · have hopen := h.openLists
    simp only [Parenthesis.total_cons, List.length_cons]
    omega
  · refine hlower h.lowest ?_ ?_ <;> simp only [List.length_cons] <;> omega
  · intro k g hg
    cases k with
    | zero =>
      obtain rfl : f = g := by simpa using hg
      exact ⟨[], ps, rfl, by simp, staysAbove_nil.mpr (by decide)⟩
    | succ k =>
      obtain ⟨before, after, rfl, hlow, habove⟩ := h.reached k g (by simpa using hg)
      refine ⟨⟨f.start, -1⟩ :: before, after, rfl, ?_, hlower habove (by omega) (by omega)⟩
      simp only [List.cons_append, Parenthesis.total_cons]
      omega

/-- From the top level the lowest sum is reached, and there is none below it. -/
theorem isLeast (h : Reckons 0 ps w) :
    IsLeast {s | ∃ qs, qs <+: ps ∧ total qs = s} (-(w.unmatched.length : Int)) := by
  constructor
  · cases hlength : w.unmatched.length with
    | zero => exact ⟨[], List.nil_prefix, rfl⟩
    | succ k =>
      have hk : k < w.unmatched.length := by omega
      obtain ⟨before, after, rfl, hlow, -⟩ := h.reached k _ (List.getElem?_eq_getElem hk)
      refine ⟨before ++ [⟨w.unmatched[k].start, -1⟩], ?_, by push_cast; omega⟩
      rw [List.prefix_append_right_inj]
      exact ⟨after, rfl⟩
  · rintro s ⟨qs, hqs, rfl⟩
    have habove := h.lowest qs hqs
    omega

end Reckons

theorem reckons_walk (depth : Nat) (items : List Item) :
    Reckons depth (items.filterMap Item.parenthesis?) (walk depth items) := by
  induction items generalizing depth with
  | nil =>
    refine ⟨by simp [walk], staysAbove_nil.mpr ?_, by simp [walk]⟩
    omega
  | cons i items ih =>
    obtain ⟨start, shape⟩ := i
    cases shape with
    | opening =>
      have hrest : Reckons depth (⟨start, 1⟩ :: items.filterMap Item.parenthesis?)
          (walk (depth + 1) items) := .cons (Int.natCast_nonneg depth) (ih (depth + 1))
      rw [walk_cons]
      exact ⟨hrest.openLists, hrest.lowest, hrest.reached⟩
    | closing =>
      by_cases hdepth : depth = 0
      · subst hdepth
        rw [walk_cons]
        exact (ih 0).unmatched { start, cause := .unmatchedClose, length := 1 }
      · have hrest : Reckons depth (⟨start, -1⟩ :: items.filterMap Item.parenthesis?)
            (walk (depth - 1) items) := by
          refine .cons (Int.natCast_nonneg depth) ?_
          have hcast : ((depth - 1 : Nat) : Int) = depth + -1 := by omega
          rw [← hcast]
          exact ih (depth - 1)
        have hunmatched : Item.unmatched? ⟨start, .closing⟩ depth = none := if_neg hdepth
        rw [walk_cons, hunmatched]
        exact ⟨hrest.openLists, hrest.lowest, hrest.reached⟩
    | string => exact ih depth
    | word token => exact ih depth

/-! ## The index -/

theorem Finding.parenthesis?_of_ofLocated {l : Located} {f : Finding} (h : ofLocated l = .ok f) :
    f.item?.bind Item.parenthesis? = l.parenthesis? := by
  obtain ⟨start, lexeme⟩ := l
  cases lexeme with
  | word spelling =>
    -- a word is no parenthesis, whether it is at fault or not
    rw [ofLocated] at h
    dsimp only at h
    split at h
    · cases h
      rfl
    · cases h
    · cases h
      rfl
  | _ =>
    cases h
    rfl

theorem Finding.closing_of_ofLocated {l : Located} {i : Item} (h : ofLocated l = .ok (.item i))
    (hshape : i.shape = .closing) : l = ⟨i.start, .closing⟩ := by
  have hparenthesis := parenthesis?_of_ofLocated h
  obtain ⟨start, lexeme⟩ := l
  obtain ⟨place, shape⟩ := i
  obtain rfl : shape = .closing := hshape
  cases lexeme with
  | closing =>
    cases h
    rfl
  | _ => cases hparenthesis

/-- The parentheses among the items are those of the text. -/
theorem parentheses_of_found {cs : List Char} {found : List Finding}
    (h : (locatedLexemes cs).mapM Finding.ofLocated = .ok found) :
    (found.filterMap Finding.item?).filterMap Item.parenthesis? = parentheses cs := by
  rw [parentheses_eq]
  generalize locatedLexemes cs = ls at h
  induction ls generalizing found with
  | nil =>
    cases h
    rfl
  | cons l ls ih =>
    obtain ⟨f, found, hf, hfound, rfl⟩ := mapM_cons_eq_ok_iff.mp h
    rw [List.filterMap_filterMap, List.filterMap_cons, List.filterMap_cons,
      Finding.parenthesis?_of_ofLocated hf, ← List.filterMap_filterMap, ih hfound]

/-- As many lists stay open as the sum is above the lowest one. -/
theorem openAfter_eq_zero_iff {cs : List Char} {found : List Finding}
    (h : (locatedLexemes cs).mapM Finding.ofLocated = .ok found) :
    openAfter 0 found = 0 ↔ ∀ qs, qs <+: parentheses cs → total (parentheses cs) ≤ total qs := by
  have hreckons := reckons_walk 0 (found.filterMap Finding.item?)
  rw [parentheses_of_found h] at hreckons
  obtain ⟨⟨low, hlow, hlowest⟩, hleast⟩ := hreckons.isLeast
  have hopen := hreckons.openLists
  unfold openAfter
  constructor
  · intro hzero qs hqs
    have hle := hleast ⟨qs, hqs, rfl⟩
    omega
  · intro hall
    have hle := hall low hlow
    omega

/-- The one pass notes the parentheses that the walk does. -/
theorem filter_flawsFrom {ls : List Located} {found : List Finding}
    (h : ls.mapM Finding.ofLocated = .ok found) (depth : Nat) :
    (flawsFrom depth found).filter (·.cause = .unmatchedClose) =
      (walk depth (found.filterMap Finding.item?)).unmatched := by
  induction ls generalizing found depth with
  | nil =>
    cases h
    rfl
  | cons l ls ih =>
    obtain ⟨x, found, hx, hfound, rfl⟩ := mapM_cons_eq_ok_iff.mp h
    rw [flawsFrom, List.filter_append, ih hfound]
    cases x with
    | flaw f =>
      have hcause : f.cause ≠ .unmatchedClose := by
        rcases Finding.ofLocated_eq_flaw_iff.mp hx with ⟨content, -, rfl⟩ | ⟨w, e, -, -, rfl⟩
        · simp
        · simp
      rw [Finding.flawAt?, Option.toList_some, List.filter_cons_of_neg (by simpa using hcause)]
      rfl
    | item i =>
      show _ = (walk depth (i :: found.filterMap Finding.item?)).unmatched
      rw [walk_cons, Finding.flawAt?]
      cases hunmatched : i.unmatched? depth with
      | none => rfl
      | some f =>
        obtain ⟨-, -, rfl⟩ := Item.unmatched?_eq_some_iff.mp hunmatched
        rfl

/-- **Parentheses with nothing to close are where the sum reaches a new low.** Let `m` be the
lowest sum of a first part of the parentheses. There are `-m` problems with closing
parentheses, and as many lists stay open as the sum of all is above `m`. The problem number
`k`, counted from 0, is at the closing parenthesis where the sum is `-(k + 1)` for the first
time. -/
theorem unmatched_at_new_lows {text : String} {index : Index} (h : Index.ofText text = .ok index) :
    let ps := parentheses text.toList
    let unmatched := index.problems.filter (·.cause = .unmatchedClose)
    ∃ m : Int, IsLeast {s | ∃ qs, qs <+: ps ∧ total qs = s} m ∧
      (unmatched.length : Int) = -m ∧ (index.openLists : Int) = total ps - m ∧
      ∀ (k : Nat) (problem : Problem), unmatched[k]? = some problem →
        ∃ before start after, ps = before ++ ⟨start, -1⟩ :: after ∧
          text.toList[start]? = some ')' ∧ problem.position = positionAt text.toList start ∧
          total (before ++ [⟨start, -1⟩]) = -(k + 1) ∧
          ∀ qs, qs <+: before → -(k + 1) < total qs := by
  obtain ⟨found, hfound, rfl⟩ := Index.ofText_eq_ok_iff_flawsFrom.mp h
  have hreckons := reckons_walk 0 (found.filterMap Finding.item?)
  rw [parentheses_of_found hfound] at hreckons
  set walked := walk 0 (found.filterMap Finding.item?)
  have hunmatched : ((flawsFrom 0 found).map (·.problem text.toList)).filter
      (·.cause = .unmatchedClose) = walked.unmatched.map (·.problem text.toList) := by
    rw [List.filter_map, ← filter_flawsFrom hfound]
    rfl
  intro ps unmatched
  have hcount : (unmatched.length : Int) = walked.unmatched.length := by
    simp only [unmatched, hunmatched, List.length_map]
  refine ⟨-(walked.unmatched.length : Int), hreckons.isLeast, by omega, ?_, ?_⟩
  · have hopen := hreckons.openLists
    simp only [ps]
    omega
  · intro k problem hproblem
    simp only [unmatched, hunmatched, List.getElem?_map, Option.map_eq_some_iff] at hproblem
    obtain ⟨f, hf, rfl⟩ := hproblem
    obtain ⟨before, after, hps, hlow, habove⟩ := hreckons.reached k f hf
    have hmem : ⟨f.start, -1⟩ ∈ parentheses text.toList := by
      rw [hps]
      simp
    refine ⟨before, f.start, after, hps, (closing_of_mem hmem).2, rfl, ?_, ?_⟩
    · simpa using hlow
    · intro qs hqs
      simpa using habove qs hqs

/-- Two parentheses with nothing to close, and one inside a string that closes nothing. -/
theorem unmatched_at_new_lows_string_between :
    let text := ")(\")\"))("
    let unmatched (column : Nat) : Problem := ⟨.unmatchedClose, ⟨0, column⟩, 1⟩
    let index : Index := { problems := [unmatched 0, unmatched 6], openLists := 1 }
    Index.ofText text = .ok index ∧
      IsLeast {s | ∃ qs, qs <+: parentheses text.toList ∧ total qs = s} (-2) ∧
      ∃ before start after, parentheses text.toList = before ++ ⟨start, -1⟩ :: after ∧
        positionAt text.toList start = ⟨0, 6⟩ ∧ total (before ++ [⟨start, -1⟩]) = -2 := by
  intro text unmatched index
  have hindex : Index.ofText text = .ok index := by
    let found : List Finding := [.item ⟨0, .closing⟩, .item ⟨1, .opening⟩, .item ⟨2, .string⟩,
      .item ⟨5, .closing⟩, .item ⟨6, .closing⟩, .item ⟨7, .opening⟩]
    have hfound : (locatedLexemes text.toList).mapM Finding.ofLocated = .ok found := by
      dsimp only [text, found]
      rfl
    refine Index.ofText_eq_ok_iff_flawsFrom.mpr ⟨found, hfound, ?_⟩
    dsimp only [text, index, found, unmatched]
    rfl
  obtain ⟨m, hleast, hcount, -, hreached⟩ := unmatched_at_new_lows hindex
  have hm : m = -2 := by
    have htwo : (2 : Int) = -m := hcount
    omega
  obtain ⟨before, start, after, hps, -, hposition, hlow, -⟩ := hreached 1 (unmatched 6) rfl
  exact ⟨hindex, hm ▸ hleast, before, start, after, hps, hposition.symm, hlow⟩

end Editor

end SmallScheme
