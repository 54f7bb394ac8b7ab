import SmallScheme.Proofs.Definitions
import SmallScheme.Proofs.Nesting

/-!
# What problems mark

A problem marks some characters of one line. Which characters are to be marked can be told from
the text alone: words outside strings that are no tokens, closing parentheses with nothing to
close, and a double quote that no other one follows (`FlawOf`). The index marks these, each of
them once, and nothing else.

* **`mem_flaws_iff`** — what the index finds in a text is what is wrong with it;
* **`FlawOf.covers`** — the characters from the start of a flaw on;
* **`FlawOf.last`** — nothing is wrong after a string without an end;
* **`problems_exact`** — the problems of any text: their order, their ranges and their number.
-/

namespace SmallScheme.Editor

open Parenthesis (total)

/-! ## What is wrong with a text -/

/-- What is wrong with a text. -/
inductive FlawOf (cs : List Char) : Flaw → Prop
  /-- A word outside strings, from its first character to its last, that is no token. -/
  | word {a w b : List Char} {e : Error} :
      cs = a ++ (w ++ b) → Even (a.count '"') → IsWord w →
      (∀ c ∈ a.getLast?, isWordChar c = false) → (∀ c ∈ b.head?, isWordChar c = false) →
      Token.ofWord (String.ofList w) = .error (.error e) →
      FlawOf cs { start := a.length, cause := .unrecognized (String.ofList w), length := w.length }
  /-- A closing parenthesis outside strings, where all lists are closed: no first part of the
  text before it has closed more of them. -/
  | closing {a b : List Char} :
      cs = a ++ ')' :: b → Even (a.count '"') →
      (∀ qs, qs <+: parentheses a → total (parentheses a) ≤ total qs) →
      FlawOf cs { start := a.length, cause := .unmatchedClose, length := 1 }
  /-- A double quote that starts a string, and no other one after it. -/
  | string {a b : List Char} :
      cs = a ++ '"' :: b → Even (a.count '"') → '"' ∉ b →
      FlawOf cs {
        start := a.length
        cause := .unterminatedString
        length := Finding.unterminatedLength b }

variable {cs : List Char} {found : List Finding}

/-- A finding is what a lexeme of the text turned out to be, and the findings before it come
from the text before that lexeme. -/
theorem lexeme_of_found (h : (locatedLexemes cs).mapM Finding.ofLocated = .ok found)
    {xs ys : List Finding} {x : Finding} (hfound : found = xs ++ x :: ys) :
    ∃ a l b, cs = a ++ (l.chars ++ b) ∧ l.WellFormed ∧ l.StartsAfter a ∧ l.EndsBefore b ∧
      (locatedLexemes a).mapM Finding.ofLocated = .ok xs ∧
      Finding.ofLocated ⟨a.length, l⟩ = .ok x := by
  rw [mapM_eq_ok_iff, hfound, List.map_append, List.map_cons] at h
  obtain ⟨before, rest, hls, hbefore, hrest⟩ := List.map_eq_append_iff.mp h
  obtain ⟨⟨start, l⟩, after, rfl, hl, -⟩ := List.map_eq_cons_iff.mp hrest
  obtain ⟨a, b, hcs, rfl, rfl, hwell, hstarts, hends⟩ :=
    exists_locatedLexemes_eq_iff.mp ⟨after, hls⟩
  exact ⟨a, l, b, hcs, hwell, hstarts, hends, mapM_eq_ok_iff.mpr hbefore, hl⟩

/-- Every lexeme of the text is found. -/
theorem found_of_lexeme (h : (locatedLexemes cs).mapM Finding.ofLocated = .ok found)
    {a b : List Char} {l : Lexeme} (hcs : cs = a ++ (l.chars ++ b)) (hwell : l.WellFormed)
    (hstarts : l.StartsAfter a) (hends : l.EndsBefore b) :
    ∃ xs x ys, found = xs ++ x :: ys ∧ (locatedLexemes a).mapM Finding.ofLocated = .ok xs ∧
      Finding.ofLocated ⟨a.length, l⟩ = .ok x := by
  obtain ⟨after, hls⟩ : ∃ after, locatedLexemes cs = locatedLexemes a ++ ⟨a.length, l⟩ :: after :=
    exists_locatedLexemes_eq_iff.mpr ⟨a, b, hcs, rfl, rfl, hwell, hstarts, hends⟩
  rw [hls, mapM_append_eq_ok_iff] at h
  obtain ⟨xs, rest, rfl, hxs, hrest⟩ := h
  obtain ⟨x, ys, hx, -, rfl⟩ := mapM_cons_eq_ok_iff.mp hrest
  exact ⟨xs, x, ys, rfl, hxs, hx⟩

/-- **What the index finds in a text is what is wrong with it.** -/
theorem mem_flaws_iff (h : (locatedLexemes cs).mapM Finding.ofLocated = .ok found) {f : Flaw} :
    f ∈ flawsFrom 0 found ↔ FlawOf cs f := by
  rw [mem_flawsFrom_iff]
  constructor
  · rintro ⟨xs, x, ys, hfound, hx⟩
    obtain ⟨a, l, b, hcs, hwell, hstarts, hends, hxs, hl⟩ := lexeme_of_found h hfound
    cases x with
    | flaw g =>
      cases hx
      rcases Finding.ofLocated_eq_flaw_iff.mp hl with ⟨content, rfl, rfl⟩ | ⟨w, e, rfl, hw, rfl⟩
      · obtain rfl : b = [] := hends
        rw [List.append_nil] at hcs
        exact .string hcs hstarts.outside hwell
      · exact .word hcs hstarts.outside hwell (hstarts.apart ⟨w, rfl⟩) hends hw
    | item i =>
      obtain ⟨hshape, hopen, rfl⟩ := Item.unmatched?_eq_some_iff.mp hx
      obtain ⟨hstart, rfl⟩ := Located.mk.inj (Finding.closing_of_ofLocated hl hshape)
      rw [← hstart]
      exact .closing hcs hstarts.outside ((openAfter_eq_zero_iff hxs).mp hopen)
  · intro hf
    cases hf with
    | @word a w b e hcs houtside hw hbefore hafter htoken =>
      obtain ⟨xs, x, ys, hfound, -, hx⟩ := found_of_lexeme h (l := .word w) hcs hw
        ⟨houtside, fun _ => hbefore⟩ hafter
      have hflaw := Finding.ofLocated_eq_flaw_iff (l := ⟨a.length, .word w⟩).mpr
        (.inr ⟨w, e, rfl, htoken, rfl⟩)
      cases hx.symm.trans hflaw
      exact ⟨xs, _, ys, hfound, rfl⟩
    | @closing a b hcs houtside hlowest =>
      obtain ⟨xs, x, ys, hfound, hxs, hx⟩ := found_of_lexeme h (l := .closing) hcs trivial
        ⟨houtside, by simp⟩ trivial
      cases hx
      refine ⟨xs, .item ⟨a.length, .closing⟩, ys, hfound, ?_⟩
      show Item.unmatched? ⟨a.length, .closing⟩ (openAfter 0 xs) = some _
      rw [Item.unmatched?_eq_some_iff, openAfter_eq_zero_iff hxs]
      exact ⟨rfl, hlowest, rfl⟩
    | @string a b hcs houtside hb =>
      obtain ⟨xs, x, ys, hfound, -, hx⟩ := found_of_lexeme h (b := []) (l := .unterminated b)
        (by simpa [Lexeme.chars] using hcs) hb ⟨houtside, by simp⟩ rfl
      cases hx
      exact ⟨xs, _, ys, hfound, rfl⟩

/-! ## The characters of a flaw -/

/-- What is shown by marking characters as the cause of a problem. -/
def ProblemCause.IsShownBy : ProblemCause → List Char → Prop
  | .unrecognized word, w => w = word.toList
  | .unmatchedClose, w => w = [')']
  | .unterminatedString, w => w.head? = some '"'

namespace FlawOf

variable {f g : Flaw}

/-- The characters from the start of a flaw on, as many as it has: they are on one line. -/
theorem covers (h : FlawOf cs f) :
    ∃ a w b, cs = a ++ (w ++ b) ∧ f.start = a.length ∧ f.length = w.length ∧
      (∀ c ∈ w, Text.isNewline c = false) ∧ f.cause.IsShownBy w := by
  cases h with
  | @word a w b e hcs _ hw _ _ _ =>
    exact ⟨a, w, b, hcs, rfl, rfl, fun c hc => isNewline_of_isWordChar (hw.2 c hc),
      (String.toList_ofList).symm⟩
  | @closing a b hcs _ _ => exact ⟨a, [')'], b, hcs, rfl, rfl, by simp [Text.isNewline], rfl⟩
  | @string a b hcs _ _ =>
    obtain ⟨w, rest, hparts, hlength, hhead, hline⟩ := exists_marked b
    exact ⟨a, w, rest, by rw [hcs, hparts], rfl, hlength.symm, hline, hhead⟩

/-- Flaws start outside strings. -/
theorem outside (h : FlawOf cs f) : Even ((cs.take f.start).count '"') := by
  cases h with
  | word hcs houtside => rwa [hcs, List.take_left]
  | closing hcs houtside => rwa [hcs, List.take_left]
  | string hcs houtside => rwa [hcs, List.take_left]

/-- Nothing is wrong after the start of a string without an end. -/
theorem last (hf : FlawOf cs f) (hcause : f.cause = .unterminatedString) (hg : FlawOf cs g) :
    g.start ≤ f.start := by
  cases hf with
  | word => cases hcause
  | closing => cases hcause
  | @string a b hcs houtside hb =>
    have heven := hg.outside
    by_contra hafter
    -- the double quote is the only one that `g` has before it in addition
    have hrest : (b.take (g.start - a.length - 1)).count '"' = 0 :=
      List.count_eq_zero_of_not_mem fun hmem => hb (List.mem_of_mem_take hmem)
    have hstart : g.start - a.length = g.start - a.length - 1 + 1 := by
      dsimp only at hafter
      omega
    rw [hcs, List.take_append, List.take_of_length_le (by dsimp only at hafter; omega), hstart,
      List.take_succ_cons, List.count_append, List.count_cons_self, hrest] at heven
    exact Nat.not_even_iff_odd.mpr houtside.add_one heven

end FlawOf

/-! ## Ranges -/

/-- What is marked is inside its line. -/
theorem FlawOf.exists_line {f : Flaw} (h : FlawOf cs f) (hpos : 0 < f.length) :
    let p := positionAt cs f.start
    ∃ line, (Text.newlineParts cs)[p.line]? = some line ∧ p.column + f.length ≤ line.length ∧
      f.cause.IsShownBy ((line.drop p.column).take f.length) := by
  obtain ⟨a, w, b, rfl, hstart, hlength, hw, hshown⟩ := h.covers
  obtain ⟨line, hline, htake⟩ := exists_line_at a b hw
  intro p
  have hp : p = positionAt (a ++ (w ++ b)) a.length := by rw [← hstart]
  rw [hp, hlength]
  refine ⟨line, hline, ?_, htake.symm ▸ hshown⟩
  -- so many characters can be taken only if they are there
  have hcount := congrArg List.length htake
  rw [List.length_take, List.length_drop] at hcount
  omega

/-- **The problems of a text are exact.** They come in the order of their positions, and none
covers what another one does. Each covers one or more characters of its line: all of the word
that is no token, the one parenthesis, or characters from a double quote on. One for a string
without an end comes last. And there is one problem for each thing that is wrong with the
text. -/
theorem problems_exact {text : String} {index : Index} (h : Index.ofText text = .ok index) :
    let cs := text.toList
    index.problems.Pairwise (fun p q => p.position.before q.position ∧
      (p.position.line = q.position.line →
        p.position.column + p.length ≤ q.position.column)) ∧
    (∀ p ∈ index.problems, ∃ line, (Text.newlineParts cs)[p.position.line]? = some line ∧
      1 ≤ p.length ∧ p.position.column + p.length ≤ line.length ∧
      p.cause.IsShownBy ((line.drop p.position.column).take p.length)) ∧
    (∀ before p after, index.problems = before ++ p :: after →
      p.cause = .unterminatedString → after = []) ∧
    ∃ flaws : List Flaw, flaws.Pairwise (·.start < ·.start) ∧ (∀ f, f ∈ flaws ↔ FlawOf cs f) ∧
      index.problems = flaws.map (·.problem cs) := by
  obtain ⟨found, hfound, rfl⟩ := Index.ofText_eq_ok_iff_flawsFrom.mp h
  intro cs
  obtain ⟨hpairwise, hbounds⟩ := pairwise_flaws hfound
  have hincreasing : (flawsFrom 0 found).Pairwise (·.start < ·.start) :=
    hpairwise.imp_of_mem fun {f g} hf _ hle => by
      have hpos := (hbounds f hf).1
      omega
  refine ⟨pairwise_problems hfound, ?_, ?_, flawsFrom 0 found, hincreasing,
    fun f => mem_flaws_iff hfound, rfl⟩
  · intro p hp
    obtain ⟨f, hf, rfl⟩ := List.mem_map.mp hp
    have hpos := (hbounds f hf).1
    obtain ⟨line, hline, hinside, hshown⟩ := ((mem_flaws_iff hfound).mp hf).exists_line hpos
    rw [Flaw.problem_of_pos hpos]
    exact ⟨line, hline, hpos, hinside, hshown⟩
  · intro before p after hproblems hcause
    obtain ⟨fs, rest, hflaws, -, hrest⟩ := List.map_eq_append_iff.mp hproblems
    obtain ⟨f, gs, rfl, rfl, hgs⟩ := List.map_eq_cons_iff.mp hrest
    cases gs with
    | nil => exact hgs.symm
    | cons g gs =>
      have hf : FlawOf cs f := (mem_flaws_iff hfound).mp (by simp [hflaws])
      have hg : FlawOf cs g := (mem_flaws_iff hfound).mp (by simp [hflaws])
      have hle := hf.last hcause hg
      rw [hflaws, List.pairwise_append, List.pairwise_cons] at hincreasing
      have hlt := hincreasing.2.1.1 g List.mem_cons_self
      omega

/-- A parenthesis with a word right after it, and a string that goes on to the end of the next
line. -/
theorem problems_exact_three_problems :
    let text := ")1x\n\"a b "
    let index : Index := {
      problems := [
        ⟨.unmatchedClose, ⟨0, 0⟩, 1⟩, ⟨.unrecognized "1x", ⟨0, 1⟩, 2⟩,
        ⟨.unterminatedString, ⟨1, 0⟩, 4⟩] }
    Index.ofText text = .ok index ∧
      (∃ line, (Text.newlineParts text.toList)[1]? = some line ∧ 4 ≤ line.length) ∧
      ∃ flaws : List Flaw, flaws.Pairwise (·.start < ·.start) ∧
        (∀ f, f ∈ flaws ↔ FlawOf text.toList f) ∧
        index.problems = flaws.map (·.problem text.toList) := by
  intro text index
  have hindex : Index.ofText text = .ok index := by
    let found : List Finding := [.item ⟨0, .closing⟩, .flaw ⟨1, .unrecognized "1x", 2⟩,
      .flaw ⟨4, .unterminatedString, 4⟩]
    have hfound : (locatedLexemes text.toList).mapM Finding.ofLocated = .ok found := by
      dsimp only [text, found]
      rfl
    refine Index.ofText_eq_ok_iff_flawsFrom.mpr ⟨found, hfound, ?_⟩
    dsimp only [text, index, found]
    rfl
  obtain ⟨-, hranges, -, hflaws⟩ := problems_exact hindex
  obtain ⟨line, hline, -, hinside, -⟩ :=
    hranges ⟨.unterminatedString, ⟨1, 0⟩, 4⟩ (by simp [index])
  exact ⟨hindex, ⟨line, hline, by simpa using hinside⟩, hflaws⟩

end SmallScheme.Editor
