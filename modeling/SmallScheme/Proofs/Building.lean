import SmallScheme.Proofs.Scanning
import SmallScheme.Reader.Tree

/-!
# Building, lexeme by lexeme

Reading finds all tokens of a text before it builds anything. Where it succeeds, it
might as well have gone lexeme by lexeme: `Builder.read` takes lexemes one at a time,
and `buildText_eq_ok_iff` says that both find the same forest. Reading this way can
be interrupted anywhere (`Builder.read_append`), and what was complete before the
builder started takes no part in it (`Builder.read_precededBy`).
-/

namespace SmallScheme

/-! ## Tokens that are not parentheses -/

namespace Token

/-- The leaf that a token stands for; a parenthesis is none. -/
def leaf? : Token → Option Datum
  | .opening | .closing => none
  | .keyword k => some (.keyword k)
  | .operator o => some (.operator o)
  | .number n => some (.number n)
  | .bool v => some (.bool v)
  | .str text => some (.str text)
  | .identifier name => some (.symbol name)

theorem take_of_leaf? {t : Token} {d : Datum} (h : t.leaf? = some d) (b : Builder) :
    b.take t = .ok (b.add d) := by
  cases t with
  | opening => cases h
  | closing => cases h
  | _ =>
    cases h
    rfl

theorem leaf?_injective {t t' : Token} {d : Datum} (h : t.leaf? = some d)
    (h' : t'.leaf? = some d) : t = t' := by
  cases t <;> cases h <;> cases t' <;> cases h' <;> rfl

end Token

/-! ## One lexeme after the other -/

namespace Builder

/-- Take one lexeme. -/
def takeLexeme (b : Builder) (l : Lexeme) : Except Fault Builder := do
  let t ← Token.ofLexeme l
  (b.take t).mapError Fault.error

/-- Take lexemes one at a time. -/
def read (b : Builder) (ls : List Lexeme) : Except Fault Builder :=
  ls.foldlM takeLexeme b

theorem read_nil (b : Builder) : b.read [] = .ok b := rfl

theorem read_cons (b : Builder) (l : Lexeme) (ls : List Lexeme) :
    b.read (l :: ls) = b.takeLexeme l >>= fun b' => b'.read ls :=
  List.foldlM_cons ..

theorem read_append (b : Builder) (as bs : List Lexeme) :
    b.read (as ++ bs) = b.read as >>= fun b' => b'.read bs :=
  List.foldlM_append ..

theorem read_append_eq_ok_iff {b b' : Builder} {as bs : List Lexeme} :
    b.read (as ++ bs) = .ok b' ↔ ∃ b₁, b.read as = .ok b₁ ∧ b₁.read bs = .ok b' := by
  rw [read_append, bind_eq_ok_iff]

/-- Finding all tokens first makes no difference to what is built. -/
theorem read_eq_ok_iff {b b' : Builder} {ls : List Lexeme} :
    b.read ls = .ok b' ↔
      ∃ ts, ls.mapM Token.ofLexeme = .ok ts ∧ ts.foldlM take b = .ok b' := by
  induction ls generalizing b with
  | nil => simp [read_nil, pure, Except.pure]
  | cons l ls ih =>
    simp only [read_cons, takeLexeme, bind_eq_ok_iff, mapError_eq_ok_iff, mapM_cons_eq_ok_iff, ih]
    constructor
    · rintro ⟨b₁, ⟨t, ht, htake⟩, ts, hts, hfold⟩
      refine ⟨t :: ts, ⟨t, ts, ht, hts, rfl⟩, ?_⟩
      rw [List.foldlM_cons, htake]
      exact hfold
    · rintro ⟨_, ⟨t, ts, ht, hts, rfl⟩, hfold⟩
      rw [List.foldlM_cons, bind_eq_ok_iff] at hfold
      obtain ⟨b₁, htake, hfold⟩ := hfold
      exact ⟨b₁, ⟨t, ht, htake⟩, ts, hts, hfold⟩

/-- Only texts with an even number of double quotes can be read. -/
theorem even_count_of_read {b b' : Builder} {text : String}
    (h : b.read (lexemes text.toList) = .ok b') : Even (text.toList.count '"') := by
  obtain ⟨ts, hts, -⟩ := read_eq_ok_iff.mp h
  rw [← tokenize_eq_mapM] at hts
  exact even_count_of_tokenize hts

/-! ## What was complete before -/

/-- The builder with more items, last first, at the start of the outermost list. -/
def precededBy (done : List Datum) (b : Builder) : Builder :=
  go b.current b.around
where
  go (current : List Datum) : List (List Datum) → Builder
    | [] => { current := current ++ done, around := [] }
    | outer :: around =>
      { current, around := (go outer around).current :: (go outer around).around }

theorem precededBy_nil (b : Builder) : b.precededBy [] = b := by
  obtain ⟨current, around⟩ := b
  unfold precededBy
  induction around generalizing current with
  | nil => simp [precededBy.go]
  | cons outer around ih => simp [precededBy.go, ih]

theorem precededBy_precededBy (first done : List Datum) (b : Builder) :
    (b.precededBy done).precededBy first = b.precededBy (done ++ first) := by
  obtain ⟨current, around⟩ := b
  unfold precededBy
  induction around generalizing current with
  | nil => simp [precededBy.go]
  | cons outer around ih => simp [precededBy.go, ih]

theorem precededBy_add (done : List Datum) (b : Builder) (d : Datum) :
    (b.add d).precededBy done = (b.precededBy done).add d := by
  obtain ⟨current, around⟩ := b
  cases around <;> rfl

theorem leave_precededBy (done : List Datum) (b : Builder) :
    (b.precededBy done).leave = (precededBy done) <$> b.leave := by
  obtain ⟨current, around⟩ := b
  cases around with
  | nil => rfl
  | cons outer around =>
    -- leaving a list adds it to the next one out, which `precededBy` may have extended
    have hadd := precededBy_add done ⟨outer, around⟩ (.list current.reverse)
    exact congrArg Except.ok hadd.symm

theorem take_precededBy (done : List Datum) (b : Builder) (t : Token) :
    (b.precededBy done).take t = (precededBy done) <$> b.take t := by
  cases hleaf : t.leaf? with
  | some d =>
    rw [Token.take_of_leaf? hleaf, Token.take_of_leaf? hleaf, Except.map_ok, precededBy_add]
  | none =>
    cases t with
    | opening => rfl
    | closing => exact leave_precededBy done b
    | _ => cases hleaf

theorem takeLexeme_precededBy (done : List Datum) (b : Builder) (l : Lexeme) :
    (b.precededBy done).takeLexeme l = (precededBy done) <$> b.takeLexeme l := by
  unfold takeLexeme
  cases Token.ofLexeme l with
  | error fault => rfl
  | ok t =>
    simp only [bind, Except.bind, take_precededBy]
    cases b.take t <;> rfl

theorem read_precededBy (done : List Datum) (b : Builder) (ls : List Lexeme) :
    (b.precededBy done).read ls = (precededBy done) <$> b.read ls := by
  induction ls generalizing b with
  | nil => rfl
  | cons l ls ih =>
    rw [read_cons, read_cons, takeLexeme_precededBy]
    cases b.takeLexeme l with
    | error fault => rfl
    | ok b' => exact ih b'

/-- The items of the outermost list, last first. -/
def outermost (b : Builder) : List Datum :=
  (b.current :: b.around).getLast (List.cons_ne_nil _ _)

theorem forest_eq (b : Builder) :
    b.forest = { exprs := b.outermost.reverse, depth := b.around.length } := by
  obtain ⟨current, around⟩ := b
  cases around with
  | nil => rfl
  | cons outer around =>
    have hlast := List.getLast?_eq_some_getLast (List.cons_ne_nil outer around)
    simp only [forest, hlast, outermost, List.getLast_cons (List.cons_ne_nil outer around)]

theorem outermost_precededBy (done : List Datum) (b : Builder) :
    (b.precededBy done).outermost = b.outermost ++ done := by
  obtain ⟨current, around⟩ := b
  unfold precededBy outermost
  induction around generalizing current with
  | nil => simp [precededBy.go]
  | cons outer around ih => simpa [precededBy.go] using ih outer

theorem length_around_precededBy (done : List Datum) (b : Builder) :
    (b.precededBy done).around.length = b.around.length := by
  obtain ⟨current, around⟩ := b
  unfold precededBy
  induction around generalizing current with
  | nil => simp [precededBy.go]
  | cons outer around ih => simpa [precededBy.go] using ih outer

/-- Complete items come first, and open no list. -/
theorem forest_precededBy (done : List Datum) (b : Builder) :
    (b.precededBy done).forest =
      { exprs := done.reverse ++ b.forest.exprs, depth := b.forest.depth } := by
  rw [forest_eq, forest_eq, outermost_precededBy, length_around_precededBy, List.reverse_append]

end Builder

theorem buildText_eq_ok_iff {text : String} {forest : Forest} :
    buildText text = .ok forest ↔
      ∃ b, ({} : Builder).read (lexemes text.toList) = .ok b ∧ b.forest = forest := by
  simp only [buildText, build, Builder.read_eq_ok_iff, ← tokenize_eq_mapM, bind_eq_ok_iff,
    mapError_eq_ok_iff, pure, Except.pure, Except.ok.injEq]
  constructor
  · rintro ⟨ts, hts, b, hb, rfl⟩
    exact ⟨b, ⟨ts, hts, hb⟩, rfl⟩
  · rintro ⟨b, ⟨ts, hts, hb⟩, rfl⟩
    exact ⟨ts, hts, b, hb, rfl⟩

theorem parse_eq_ok_iff {text : String} {exprs : List Datum} :
    parse text = .ok exprs ↔
      ({} : Builder).read (lexemes text.toList) = .ok { current := exprs.reverse } := by
  rw [parse, bind_eq_ok_iff]
  constructor
  · rintro ⟨forest, hforest, hdepth⟩
    obtain ⟨⟨current, around⟩, hread, rfl⟩ := buildText_eq_ok_iff.mp hforest
    cases around with
    | nil =>
      cases hdepth
      simpa [Builder.forest] using hread
    | cons outer around => simp [Builder.forest_eq] at hdepth
  · intro hread
    refine ⟨_, buildText_eq_ok_iff.mpr ⟨_, hread, rfl⟩, ?_⟩
    simp [Builder.forest]

end SmallScheme
