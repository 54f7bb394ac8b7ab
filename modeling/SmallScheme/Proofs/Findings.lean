import SmallScheme.Editor.Index
import SmallScheme.Proofs.Balance

/-!
# What the index finds

The index judges each lexeme on its own, where reading stops at the first one at fault:
a lexeme is an item if it has a token, and a flaw if it has none. So a text without flaws
is one that has tokens, and its items stand for them one by one (`tokens_of_found`).
Walking through the items then keeps the number of open lists that building from the
tokens does, and where building fails, the walk notes a parenthesis with nothing to close
(`walk_of_run`).
-/

namespace SmallScheme

/-- Words at fault are no tokens at all, or integers with too many digits. -/
theorem Token.ofWord_eq_error {word : String} {fault : Fault} (h : ofWord word = .error fault) :
    fault = .error (.unrecognized word) ∨
      Text.isDigits word.toList ∧ ∃ large : digitLimit < word.toList.length,
        fault = .oversized (.literal word.toList.length large) := by
  unfold ofWord at h
  dsimp only at h
  split at h
  · cases h
  split at h
  · cases h
  split at h
  · next hdigits =>
    unfold ofInteger Number.ofDigits at h
    by_cases hlength : word.toList.length ≤ digitLimit
    · rw [dif_pos hlength] at h
      cases h
    · rw [dif_neg hlength] at h
      cases h
      exact .inr ⟨hdigits, Nat.not_le.mp hlength, rfl⟩
  split at h
  · cases h
  split at h
  · cases h
  split at h
  · cases h
  split at h
  · cases h
  · cases h
    exact .inl rfl

theorem Token.ofWord_of_too_many_digits {digits : List Char} (h : Text.isDigits digits)
    (hlength : digitLimit < digits.length) :
    ofWord (String.ofList digits) = .error (.oversized (.literal digits.length)) := by
  have hdigits : Text.isDigits (String.ofList digits).toList := by rwa [String.toList_ofList]
  rw [ofWord_of_isDigits hdigits, String.toList_ofList, ofInteger, Number.ofDigits,
    dif_neg (Nat.not_le.mpr hlength)]

namespace Editor

/-! ## One lexeme -/

/-- The token that the shape of an item stands for. -/
inductive ItemShape.Stands : ItemShape → Token → Prop
  | opening : Stands .opening .opening
  | closing : Stands .closing .closing
  | string (content : String) : Stands .string (.str content)
  | word {t : Token} {d : Datum} : t.leaf? = some d → Stands (.word t) t

/-- A lexeme that can be judged is an item with its token, or a flaw without one. -/
theorem Finding.ofLocated_eq_ok {l : Located} {f : Finding} (h : ofLocated l = .ok f) :
    (∃ i t, f = .item i ∧ Token.ofLexeme l.lexeme = .ok t ∧ i.shape.Stands t) ∨
      ∃ flaw e, f = .flaw flaw ∧ Token.ofLexeme l.lexeme = .error (.error e) ∧
        e.kind = .lexing := by
  obtain ⟨start, lexeme⟩ := l
  cases lexeme with
  | opening =>
    cases h
    exact .inl ⟨_, _, rfl, rfl, .opening⟩
  | closing =>
    cases h
    exact .inl ⟨_, _, rfl, rfl, .closing⟩
  | quoted content =>
    cases h
    exact .inl ⟨_, _, rfl, rfl, .string _⟩
  | unterminated content =>
    cases h
    exact .inr ⟨_, _, rfl, rfl, rfl⟩
  | word spelling =>
    rw [ofLocated] at h
    dsimp only at h
    rw [Token.ofLexeme]
    cases hword : Token.ofWord (String.ofList spelling) with
    | ok t =>
      rw [hword] at h
      cases h
      obtain ⟨d, hleaf, -⟩ := Token.leaf_of_ofWord hword
      exact .inl ⟨_, t, rfl, rfl, .word hleaf⟩
    | error fault =>
      rw [hword] at h
      rcases Token.ofWord_eq_error hword with rfl | ⟨-, _, rfl⟩
      · cases h
        exact .inr ⟨_, _, rfl, rfl, rfl⟩
      · cases h

/-- Only an integer with too many digits cannot be judged. -/
theorem Finding.ofLocated_eq_error_iff {l : Located} {o : Oversized} :
    ofLocated l = .error o ↔
      ∃ digits, l.lexeme = .word digits ∧ Text.isDigits digits ∧
        ∃ large : digitLimit < digits.length, o = .literal digits.length large := by
  obtain ⟨start, lexeme⟩ := l
  cases lexeme with
  | word spelling =>
    rw [ofLocated]
    dsimp only
    constructor
    · intro h
      cases hword : Token.ofWord (String.ofList spelling) with
      | ok t => simp [hword] at h
      | error fault =>
        rcases Token.ofWord_eq_error hword with rfl | ⟨hdigits, hlength, rfl⟩
        · simp [hword] at h
        · simp only [String.toList_ofList] at hdigits hlength hword
          rw [hword] at h
          cases h
          exact ⟨spelling, rfl, hdigits, hlength, rfl⟩
    · rintro ⟨digits, hspelling, hdigits, hlength, rfl⟩
      cases hspelling
      rw [Token.ofWord_of_too_many_digits hdigits hlength]
  | _ => simp [ofLocated]

/-! ## All lexemes -/

/-- The findings of a text that can be judged. -/
theorem Index.ofText_eq_ok_iff {text : String} {index : Index} :
    Index.ofText text = .ok index ↔
      ∃ found, (locatedLexemes text.toList).mapM Finding.ofLocated = .ok found ∧
        index =
          let walked := walk 0 (found.filterMap Finding.item?)
          { definitions := collectDefinitions text.toList walked.definitions
            problems := ((found.filterMap Finding.flaw? ++ walked.unmatched).map
              (·.problem text.toList)).mergeSort (fun p q => !q.position.before p.position)
            openLists := walked.openLists } := by
  rw [Index.ofText, bind_eq_ok_iff]
  simp only [pure, Except.pure, Except.ok.injEq, eq_comm]

theorem Index.ofText_eq_error_iff {text : String} :
    (∃ o, Index.ofText text = .error o) ↔
      ∃ digits, .word digits ∈ lexemes text.toList ∧ Text.isDigits digits ∧
        digitLimit < digits.length := by
  have hmapM : (∃ o, Index.ofText text = .error o) ↔
      ∃ o, (locatedLexemes text.toList).mapM Finding.ofLocated = .error o := by
    rw [Index.ofText]
    cases (locatedLexemes text.toList).mapM Finding.ofLocated <;>
      simp [bind, Except.bind, pure, Except.pure]
  rw [hmapM]
  constructor
  · rintro ⟨o, ho⟩
    obtain ⟨before, l, after, heq, -, hl⟩ := mapM_eq_error_iff.mp ho
    obtain ⟨digits, hword, hdigits, hlength, -⟩ := Finding.ofLocated_eq_error_iff.mp hl
    refine ⟨digits, ?_, hdigits, hlength⟩
    rw [lexemes, heq, ← hword]
    simp
  · rintro ⟨digits, hmem, hdigits, hlength⟩
    obtain ⟨l, hl, hword⟩ := List.mem_map.mp hmem
    have herror := Finding.ofLocated_eq_error_iff.mpr ⟨digits, hword, hdigits, hlength, rfl⟩
    cases hfound : (locatedLexemes text.toList).mapM Finding.ofLocated with
    | error o => exact ⟨o, rfl⟩
    | ok found =>
      have hok := List.mem_map_of_mem (f := Finding.ofLocated) hl
      rw [mapM_eq_ok_iff.mp hfound, herror] at hok
      simp at hok

/-- Without flaws every lexeme has a token, and the items stand for these tokens. -/
theorem tokens_of_found {ls : List Located} {found : List Finding}
    (h : ls.mapM Finding.ofLocated = .ok found) (hflaws : found.filterMap Finding.flaw? = []) :
    ∃ ts, (ls.map (·.lexeme)).mapM Token.ofLexeme = .ok ts ∧
      List.Forall₂ (fun i t => i.shape.Stands t) (found.filterMap Finding.item?) ts := by
  induction ls generalizing found with
  | nil =>
    cases h
    exact ⟨[], rfl, .nil⟩
  | cons l ls ih =>
    obtain ⟨f, found, hf, hfound, rfl⟩ := mapM_cons_eq_ok_iff.mp h
    rcases Finding.ofLocated_eq_ok hf with ⟨i, t, rfl, ht, hstands⟩ | ⟨flaw, e, rfl, -, -⟩
    · obtain ⟨ts, hts, hall⟩ := ih hfound hflaws
      exact ⟨t :: ts, mapM_cons_eq_ok_iff.mpr ⟨t, ts, ht, hts, rfl⟩, .cons hstands hall⟩
    · cases hflaws

/-- With a flaw the text has no tokens. -/
theorem lexing_of_found {ls : List Located} {found : List Finding}
    (h : ls.mapM Finding.ofLocated = .ok found) (hflaws : found.filterMap Finding.flaw? ≠ []) :
    ∃ e, (ls.map (·.lexeme)).mapM Token.ofLexeme = .error (.error e) ∧ e.kind = .lexing := by
  induction ls generalizing found with
  | nil =>
    cases h
    exact absurd rfl hflaws
  | cons l ls ih =>
    obtain ⟨f, found, hf, hfound, rfl⟩ := mapM_cons_eq_ok_iff.mp h
    rw [List.map_cons, List.mapM_cons]
    rcases Finding.ofLocated_eq_ok hf with ⟨i, t, rfl, ht, -⟩ | ⟨flaw, e, rfl, he, hkind⟩
    · obtain ⟨e, he, hkind⟩ := ih hfound hflaws
      rw [ht, he]
      exact ⟨e, rfl, hkind⟩
    · rw [he]
      exact ⟨e, rfl, hkind⟩

/-! ## The walk -/

/-- A token that the builder takes moves the walk into or out of the same list. -/
theorem walk_cons_of_take {i : Item} {t : Token} (hstands : i.shape.Stands t) {b b' : Builder}
    (htake : b.take t = .ok b') (items : List Item) :
    (walk b.around.length (i :: items)).unmatched = (walk b'.around.length items).unmatched ∧
      (walk b.around.length (i :: items)).openLists =
        (walk b'.around.length items).openLists := by
  obtain ⟨start, shape⟩ := i
  cases hstands with
  | opening =>
    cases htake
    rw [walk]
    split <;> exact ⟨rfl, rfl⟩
  | closing =>
    obtain ⟨current, around⟩ := b
    cases around with
    | nil => cases htake
    | cons outer around =>
      cases htake
      exact ⟨rfl, rfl⟩
  | string content =>
    cases htake
    exact ⟨rfl, rfl⟩
  | word hleaf =>
    rw [Token.take_of_leaf? hleaf] at htake
    cases htake
    exact ⟨rfl, rfl⟩

/-- A token that the builder refuses is a parenthesis with nothing to close. -/
theorem walk_cons_of_refused {i : Item} {t : Token} (hstands : i.shape.Stands t) {b : Builder}
    {e : Error} (htake : b.take t = .error e) (items : List Item) :
    (walk b.around.length (i :: items)).unmatched ≠ [] := by
  obtain ⟨start, shape⟩ := i
  cases hstands with
  | opening => cases htake
  | closing =>
    obtain ⟨current, around⟩ := b
    cases around with
    | nil => simp [walk]
    | cons outer around => cases htake
  | string content => cases htake
  | word hleaf =>
    rw [Token.take_of_leaf? hleaf] at htake
    cases htake

/-- The walk keeps the number of open lists, and notes a parenthesis with nothing to close
if the tokens cannot be built. -/
theorem walk_of_run {items : List Item} {ts : List Token}
    (h : List.Forall₂ (fun i t => i.shape.Stands t) items ts) (b : Builder) :
    (∀ b', b.run ts = .ok b' → (walk b.around.length items).unmatched = [] ∧
      (walk b.around.length items).openLists = b'.around.length) ∧
    ∀ e, b.run ts = .error e → (walk b.around.length items).unmatched ≠ [] := by
  induction h generalizing b with
  | nil =>
    refine ⟨?_, ?_⟩
    · rintro b' ⟨⟩
      exact ⟨rfl, rfl⟩
    · rintro e ⟨⟩
  | @cons i t items ts hstands _ ih =>
    cases htake : b.take t with
    | error e =>
      have hrun : b.run (t :: ts) = .error e := by
        rw [Builder.run, List.foldlM_cons, htake]
        rfl
      rw [hrun]
      refine ⟨?_, fun _ _ => walk_cons_of_refused hstands htake items⟩
      rintro b' ⟨⟩
    | ok b₁ =>
      have hrun : b.run (t :: ts) = b₁.run ts := by
        rw [Builder.run, List.foldlM_cons, htake]
        rfl
      obtain ⟨hunmatched, hopen⟩ := walk_cons_of_take hstands htake items
      rw [hrun, hunmatched, hopen]
      exact ih b₁

end Editor

end SmallScheme
