import Mathlib.Data.List.Infix
import SmallScheme.Proofs.PrintRead

/-!
# Building loses nothing

`flatten` writes expressions back as tokens, lists between parentheses. Building is its
inverse, on token lists that end inside open lists as well: at every point the tokens
read so far are those of what the builder holds (`Builder.Wrote.run`), and reading these
again leads to the same builder (`Builder.Wrote.rerun`).

Parentheses are counted to say which token lists can be built. A token list is
`Overclosed` if some prefix of it closes more lists than it opens; of the tokens after
an opening parenthesis the same condition says that its list is closed. `build_balanced`
puts this together.
-/

namespace SmallScheme

/-! ## Parentheses -/

namespace Token

/-- An opening parenthesis. -/
def isOpening : Token → Bool
  | .opening => true
  | _ => false

/-- A closing parenthesis. -/
def isClosing : Token → Bool
  | .closing => true
  | _ => false

/-- The number of opening parentheses. -/
def openings (ts : List Token) : Nat :=
  ts.countP isOpening

/-- The number of closing parentheses. -/
def closings (ts : List Token) : Nat :=
  ts.countP isClosing

@[simp] theorem openings_nil : openings [] = 0 := rfl

@[simp] theorem closings_nil : closings [] = 0 := rfl

@[simp] theorem openings_append (a b : List Token) :
    openings (a ++ b) = openings a + openings b :=
  List.countP_append

@[simp] theorem closings_append (a b : List Token) :
    closings (a ++ b) = closings a + closings b :=
  List.countP_append

@[simp] theorem openings_cons_opening (ts : List Token) :
    openings (.opening :: ts) = openings ts + 1 :=
  List.countP_cons_of_pos rfl

@[simp] theorem closings_cons_opening (ts : List Token) :
    closings (.opening :: ts) = closings ts := rfl

@[simp] theorem openings_cons_closing (ts : List Token) :
    openings (.closing :: ts) = openings ts := rfl

@[simp] theorem closings_cons_closing (ts : List Token) :
    closings (.closing :: ts) = closings ts + 1 :=
  List.countP_cons_of_pos rfl

/-- Some prefix has more closing than opening parentheses. -/
def Overclosed (ts : List Token) : Prop :=
  ∃ before ∈ ts.inits, openings before < closings before

instance : DecidablePred Overclosed := fun ts =>
  decidable_of_iff (ts.inits.any fun before => openings before < closings before)
    (by simp [Overclosed])

theorem overclosed_iff {ts : List Token} :
    Overclosed ts ↔ ∃ before after, ts = before ++ after ∧ openings before < closings before := by
  simp only [Overclosed, List.mem_inits]
  constructor
  · rintro ⟨before, ⟨after, rfl⟩, hcount⟩
    exact ⟨before, after, rfl, hcount⟩
  · rintro ⟨before, after, rfl, hcount⟩
    exact ⟨before, List.prefix_append before after, hcount⟩

end Token

/-! ## Expressions as tokens -/

namespace Datum

/-- The token that stands for a leaf. -/
def token? : Datum → Option Token
  | .number n => some (.number n)
  | .bool b => some (.bool b)
  | .str text => some (.str text)
  | .symbol name => some (.identifier name)
  | .keyword k => some (.keyword k)
  | .operator o => some (.operator o)
  | _ => none

/-- A datum whose leaves all have tokens. -/
def IsExpression (d : Datum) : Prop :=
  ∀ x ∈ d.leaves, x.token?.isSome

mutual

/-- The tokens of an expression. -/
def tokens : Datum → List Token
  | .list items => .opening :: (flatten items ++ [.closing])
  | d => d.token?.toList

/-- The tokens of several expressions, one after the other. -/
def flatten : List Datum → List Token
  | [] => []
  | d :: ds => tokens d ++ flatten ds

end

@[simp] theorem flatten_nil : flatten [] = [] := by
  rw [flatten]

@[simp] theorem flatten_append (as bs : List Datum) :
    flatten (as ++ bs) = flatten as ++ flatten bs := by
  induction as with
  | nil => simp
  | cons d ds ih => rw [List.cons_append, flatten, flatten, ih, List.append_assoc]

theorem flatten_singleton (d : Datum) : flatten [d] = tokens d := by
  rw [flatten, flatten_nil, List.append_nil]

theorem isExpression_list (items : List Datum) :
    IsExpression (.list items) ↔ ∀ d ∈ items, d.IsExpression := by
  unfold IsExpression
  rw [leaves_list]
  simp only [List.mem_flatMap]
  constructor
  · intro h d hd x hx
    exact h x ⟨d, hd, hx⟩
  · rintro h x ⟨d, hd, hx⟩
    exact h d hd x hx

/-- The tokens of an expression are balanced. -/
theorem openings_tokens (d : Datum) : Token.openings d.tokens = Token.closings d.tokens := by
  induction d using treeInduction with
  | list items ih =>
    have hitems : Token.openings (flatten items) = Token.closings (flatten items) := by
      induction items with
      | nil => simp
      | cons d ds ihds =>
        obtain ⟨hd, hds⟩ := List.forall_mem_cons.mp ih
        rw [flatten, Token.openings_append, Token.closings_append, hd, ihds hds]
    simp [tokens, hitems]
  | _ => rfl

theorem openings_flatten (ds : List Datum) :
    Token.openings (flatten ds) = Token.closings (flatten ds) := by
  induction ds with
  | nil => simp
  | cons d ds ih => simp [flatten, openings_tokens, ih]

end Datum

theorem Token.token?_of_leaf? {t : Token} {d : Datum} (h : t.leaf? = some d) :
    d.token? = some t ∧ d.tokens = [t] ∧ d.leaves = [d] := by
  cases t <;> cases h <;> exact ⟨rfl, rfl, rfl⟩

/-! ## What a builder holds -/

namespace Builder

/-- Take tokens one after the other. -/
def run (b : Builder) (ts : List Token) : Except Error Builder :=
  ts.foldlM take b

theorem run_append_eq_ok_iff {b b' : Builder} {as bs : List Token} :
    b.run (as ++ bs) = .ok b' ↔ ∃ b₁, b.run as = .ok b₁ ∧ b₁.run bs = .ok b' := by
  rw [run, List.foldlM_append, bind_eq_ok_iff]
  rfl

/-- The tokens of the lists in progress: those around the innermost one, each up to the
point where the next one starts, and then the innermost one. -/
def written (b : Builder) : List Token :=
  (b.around.reverse.flatMap fun items => Datum.flatten items.reverse ++ [.opening]) ++
    Datum.flatten b.current.reverse

theorem written_cons (current outer : List Datum) (around : List (List Datum)) :
    written ⟨current, outer :: around⟩ =
      written ⟨outer, around⟩ ++ .opening :: Datum.flatten current.reverse := by
  simp [written]

/-- The outermost list comes first. -/
theorem written_concat (current outermost : List Datum) (inner : List (List Datum)) :
    written ⟨current, inner ++ [outermost]⟩ =
      Datum.flatten outermost.reverse ++ .opening :: written ⟨current, inner⟩ := by
  simp [written]

theorem written_add (b : Builder) (d : Datum) : (b.add d).written = b.written ++ d.tokens := by
  simp [written, add, Datum.flatten_singleton]

/-- The builder holds expressions only, and these are its tokens. -/
structure Wrote (b : Builder) (ts : List Token) : Prop where
  expressions : ∀ items ∈ b.current :: b.around, ∀ d ∈ items, d.IsExpression
  written : b.written = ts

theorem Wrote.start : ({} : Builder).Wrote [] :=
  ⟨by simp, by simp [Builder.written]⟩

theorem Wrote.add {b : Builder} {ts : List Token} (hb : b.Wrote ts) {d : Datum}
    (hd : d.IsExpression) : (b.add d).Wrote (ts ++ d.tokens) := by
  obtain ⟨hcurrent, haround⟩ := List.forall_mem_cons.mp hb.expressions
  refine ⟨List.forall_mem_cons.mpr ⟨List.forall_mem_cons.mpr ⟨hd, hcurrent⟩, haround⟩, ?_⟩
  rw [written_add, hb.written]

/-- Taking a token writes it. -/
theorem Wrote.take {b b' : Builder} {ts : List Token} (hb : b.Wrote ts) {t : Token}
    (h : b.take t = .ok b') : b'.Wrote (ts ++ [t]) := by
  cases hleaf : t.leaf? with
  | some d =>
    obtain ⟨htoken, htokens, hleaves⟩ := Token.token?_of_leaf? hleaf
    have hd : d.IsExpression := by simp [Datum.IsExpression, hleaves, htoken]
    rw [Token.take_of_leaf? hleaf, Except.ok.injEq] at h
    rw [← h, ← htokens]
    exact hb.add hd
  | none =>
    cases t with
    | opening =>
      cases h
      refine ⟨List.forall_mem_cons.mpr ⟨fun d hd => absurd hd List.not_mem_nil, hb.expressions⟩, ?_⟩
      rw [← hb.written]
      simp [Builder.written, enter]
    | closing =>
      obtain ⟨current, around⟩ := b
      cases around with
      | nil => cases h
      | cons outer around =>
        cases h
        obtain ⟨hcurrent, haround⟩ := List.forall_mem_cons.mp hb.expressions
        obtain ⟨houter, haround⟩ := List.forall_mem_cons.mp haround
        have hlist : (Datum.list current.reverse).IsExpression := by
          rw [Datum.isExpression_list]
          intro d hd
          exact hcurrent d (List.mem_reverse.mp hd)
        refine ⟨List.forall_mem_cons.mpr
          ⟨List.forall_mem_cons.mpr ⟨hlist, houter⟩, haround⟩, ?_⟩
        rw [← hb.written, written_cons]
        simp [Builder.written, Datum.flatten_singleton, Datum.tokens]
    | _ => cases hleaf

theorem Wrote.run {b b' : Builder} {ts us : List Token} (hb : b.Wrote ts)
    (h : b.run us = .ok b') : b'.Wrote (ts ++ us) := by
  induction us generalizing b ts with
  | nil =>
    cases h
    rwa [List.append_nil]
  | cons u us ih =>
    rw [Builder.run, List.foldlM_cons, bind_eq_ok_iff] at h
    obtain ⟨b₁, htake, hrun⟩ := h
    have := ih (hb.take htake) hrun
    rwa [List.append_assoc, List.singleton_append] at this

/-! ## Reading back what was written -/

theorem run_flatten_of_tokens {ds : List Datum}
    (h : ∀ d ∈ ds, ∀ b : Builder, b.run d.tokens = .ok (b.add d)) (b : Builder) :
    b.run (Datum.flatten ds) = .ok { b with current := ds.reverse ++ b.current } := by
  induction ds generalizing b with
  | nil => simp [run, pure, Except.pure]
  | cons d ds ih =>
    obtain ⟨hd, hds⟩ := List.forall_mem_cons.mp h
    rw [Datum.flatten, run_append_eq_ok_iff]
    refine ⟨b.add d, hd b, ?_⟩
    rw [ih hds]
    simp [add]

theorem run_tokens {d : Datum} (hd : d.IsExpression) (b : Builder) :
    b.run d.tokens = .ok (b.add d) := by
  induction d using Datum.treeInduction generalizing b with
  | list items ih =>
    rw [Datum.isExpression_list] at hd
    have hitems := run_flatten_of_tokens (fun d hmem => ih d hmem (hd d hmem)) b.enter
    have hopening : b.run [.opening] = .ok b.enter := rfl
    rw [Datum.tokens, ← List.singleton_append, run_append_eq_ok_iff]
    refine ⟨b.enter, hopening, run_append_eq_ok_iff.mpr ⟨_, hitems, ?_⟩⟩
    simp [run, take, leave, enter, add, pure, Except.pure, bind, Except.bind]
  | closure => exact absurd (hd _ List.mem_cons_self) Bool.false_ne_true
  | nil => exact absurd (hd _ List.mem_cons_self) Bool.false_ne_true
  | unassigned => exact absurd (hd _ List.mem_cons_self) Bool.false_ne_true
  | absent => exact absurd (hd _ List.mem_cons_self) Bool.false_ne_true
  | _ => rfl

theorem run_flatten {ds : List Datum} (hds : ∀ d ∈ ds, d.IsExpression) (b : Builder) :
    b.run (Datum.flatten ds) = .ok { b with current := ds.reverse ++ b.current } :=
  run_flatten_of_tokens (fun d hd => run_tokens (hds d hd)) b

theorem Wrote.rerun {b : Builder} {ts : List Token} (hb : b.Wrote ts) :
    ({} : Builder).run ts = .ok b := by
  obtain ⟨current, around⟩ := b
  obtain ⟨hitems, rfl⟩ := hb
  induction around generalizing current with
  | nil =>
    have hcurrent : ∀ d ∈ current.reverse, d.IsExpression := by
      intro d hd
      exact hitems current List.mem_cons_self d (List.mem_reverse.mp hd)
    simpa [Builder.written] using run_flatten hcurrent {}
  | cons outer around ih =>
    obtain ⟨hcurrent, haround⟩ := List.forall_mem_cons.mp hitems
    have hinner : ∀ d ∈ current.reverse, d.IsExpression := by
      intro d hd
      exact hcurrent d (List.mem_reverse.mp hd)
    rw [written_cons, run_append_eq_ok_iff]
    refine ⟨⟨outer, around⟩, ih outer haround, ?_⟩
    rw [← List.singleton_append, run_append_eq_ok_iff]
    refine ⟨⟨[], outer :: around⟩, rfl, ?_⟩
    simpa using run_flatten hinner ⟨[], outer :: around⟩

/-- The builder that tokens lead to is the one that wrote them. -/
theorem run_eq_ok_iff {ts : List Token} {b : Builder} :
    ({} : Builder).run ts = .ok b ↔ b.Wrote ts :=
  ⟨fun h => Wrote.start.run h, Wrote.rerun⟩

/-! ## Counting parentheses -/

theorem Wrote.openings {b : Builder} {ts : List Token} (hb : b.Wrote ts) :
    Token.openings ts = Token.closings ts + b.around.length := by
  obtain ⟨current, around⟩ := b
  obtain ⟨-, rfl⟩ := hb
  induction around generalizing current with
  | nil => simp [Builder.written, Datum.openings_flatten]
  | cons outer around ih =>
    rw [written_cons, Token.openings_append, Token.closings_append, ih]
    simp only [Token.openings_cons_opening, Token.closings_cons_opening,
      Datum.openings_flatten, List.length_cons]
    omega

/-- Tokens that can be built close no more lists than they open, wherever they are cut. -/
theorem not_overclosed_of_run {ts : List Token} {b : Builder}
    (h : ({} : Builder).run ts = .ok b) : ¬ Token.Overclosed ts := by
  rw [Token.overclosed_iff]
  rintro ⟨before, after, rfl, hcount⟩
  obtain ⟨b₁, hbefore, -⟩ := run_append_eq_ok_iff.mp h
  have := (run_eq_ok_iff.mp hbefore).openings
  omega

/-- Building fails only at a closing parenthesis with nothing to close. -/
theorem run_eq_error {b : Builder} {ts : List Token} {e : Error} (h : b.run ts = .error e) :
    e = .unmatchedClose ∧ ∃ before after b', ts = before ++ .closing :: after ∧
      b.run before = .ok b' ∧ b'.around = [] := by
  induction ts generalizing b with
  | nil => cases h
  | cons t ts ih =>
    rw [run, List.foldlM_cons] at h
    cases htake : b.take t with
    | ok b₁ =>
      rw [htake] at h
      obtain ⟨he, before, after, b', rfl, hrun, hb'⟩ := ih h
      refine ⟨he, t :: before, after, b', rfl, ?_, hb'⟩
      rw [run, List.foldlM_cons, htake]
      exact hrun
    | error e' =>
      rw [htake] at h
      cases h
      cases hleaf : t.leaf? with
      | some d =>
        rw [Token.take_of_leaf? hleaf] at htake
        cases htake
      | none =>
        cases t with
        | opening => cases htake
        | closing =>
          obtain ⟨current, around⟩ := b
          cases around with
          | nil =>
            cases htake
            exact ⟨rfl, [], ts, _, rfl, rfl, rfl⟩
          | cons outer around => cases htake
        | _ => cases hleaf

theorem overclosed_of_run_eq_error {ts : List Token} {e : Error}
    (h : ({} : Builder).run ts = .error e) : Token.Overclosed ts := by
  obtain ⟨-, before, after, b, rfl, hbefore, haround⟩ := run_eq_error h
  have hcount := (run_eq_ok_iff.mp hbefore).openings
  rw [haround, List.length_nil, Nat.add_zero] at hcount
  rw [Token.overclosed_iff]
  refine ⟨before ++ [.closing], after, by simp, ?_⟩
  simp [hcount]

/-! ## Lists that stay open -/

/-- While lists are open, the complete expressions come before the first parenthesis that
is never closed. -/
theorem Wrote.exists_open {b : Builder} {ts : List Token} (hb : b.Wrote ts)
    (hopen : b.around ≠ []) :
    ∃ rest, ts = Datum.flatten b.outermost.reverse ++ .opening :: rest ∧
      ¬ Token.Overclosed rest := by
  obtain ⟨current, around⟩ := b
  obtain ⟨hitems, rfl⟩ := hb
  obtain ⟨inner, outermost, rfl⟩ := (List.eq_nil_or_concat around).resolve_left hopen
  rw [List.concat_eq_append] at hitems ⊢
  refine ⟨Builder.written ⟨current, inner⟩, ?_, ?_⟩
  · rw [written_concat]
    simp [Builder.outermost]
  · -- without its outermost list the builder has written the rest
    have hinner : Wrote ⟨current, inner⟩ (Builder.written ⟨current, inner⟩) := by
      refine ⟨fun items hmem => hitems items ?_, rfl⟩
      rcases List.mem_cons.mp hmem with rfl | hmem
      · exact List.mem_cons_self
      · exact List.mem_cons_of_mem _ (List.mem_append_left _ hmem)
    exact not_overclosed_of_run hinner.rerun

theorem Wrote.outermost {b : Builder} {ts : List Token} (hb : b.Wrote ts) :
    ∀ e ∈ b.outermost.reverse, e.IsExpression := by
  intro e he
  exact hb.expressions _ (List.getLast_mem _) e (List.mem_reverse.mp he)

end Builder

/-- An element that stands earlier than another has that one among what follows it. -/
theorem exists_between {α : Type} {as bs cs ds : List α} {a c : α}
    (h : as ++ a :: bs = cs ++ c :: ds) (hlength : as.length < cs.length) :
    ∃ mid, cs = as ++ a :: mid ∧ bs = mid ++ c :: ds := by
  rcases List.append_eq_append_iff.mp h with ⟨_ | ⟨x, mid⟩, rfl, hrest⟩ | ⟨mid, rfl, -⟩
  · simp at hlength
  · cases hrest
    exact ⟨mid, rfl, rfl⟩
  · rw [List.length_append] at hlength
    omega

/-- Each list that balanced tokens open they close. -/
theorem Token.overclosed_of_opening {before after rest : List Token}
    (hbalanced : openings (before ++ .opening :: after) = closings (before ++ .opening :: after))
    (hbefore : ¬ Overclosed (before ++ .opening :: after)) : Overclosed (after ++ rest) := by
  rw [overclosed_iff] at hbefore ⊢
  refine ⟨after, rest, rfl, ?_⟩
  by_contra hle
  refine hbefore ⟨before, _, rfl, ?_⟩
  simp only [openings_append, closings_append, openings_cons_opening,
    closings_cons_opening] at hbalanced
  omega

/-! ## Building -/

theorem build_eq_ok_iff {ts : List Token} {forest : Forest} :
    build ts = .ok forest ↔ ∃ b, ({} : Builder).run ts = .ok b ∧ b.forest = forest := by
  rw [build, bind_eq_ok_iff]
  simp only [pure, Except.pure, Except.ok.injEq]
  rfl

theorem build_eq_error_iff {ts : List Token} {e : Error} :
    build ts = .error e ↔ ({} : Builder).run ts = .error e := by
  unfold build Builder.run
  cases List.foldlM Builder.take {} ts with
  | error e' => simp [bind, Except.bind]
  | ok b => simp [bind, Except.bind, pure, Except.pure]

theorem build_flatten {exprs : List Datum} (h : ∀ e ∈ exprs, e.IsExpression) :
    build (Datum.flatten exprs) = .ok { exprs, depth := 0 } := by
  rw [build_eq_ok_iff]
  refine ⟨_, Builder.run_flatten h {}, ?_⟩
  simp [Builder.forest]

theorem isExpression_of_build {ts : List Token} {forest : Forest} (h : build ts = .ok forest) :
    ∀ e ∈ forest.exprs, e.IsExpression := by
  obtain ⟨b, hrun, rfl⟩ := build_eq_ok_iff.mp h
  rw [Builder.forest_eq]
  exact (Builder.run_eq_ok_iff.mp hrun).outermost

/-- The tokens of a text that was read are those of its expressions. -/
theorem tokenize_of_parse {text : String} {exprs : List Datum} (h : parse text = .ok exprs) :
    tokenize text = .ok (Datum.flatten exprs) ∧ ∀ e ∈ exprs, e.IsExpression := by
  obtain ⟨ts, hts, hrun⟩ := Builder.read_eq_ok_iff.mp (parse_eq_ok_iff.mp h)
  have hwrote := Builder.run_eq_ok_iff.mp hrun
  have hwritten : Datum.flatten exprs = ts := by
    rw [← hwrote.written]
    simp [Builder.written]
  refine ⟨by rw [tokenize_eq_mapM, hts, hwritten], ?_⟩
  intro e he
  exact hwrote.expressions _ List.mem_cons_self e (List.mem_reverse.mpr he)

/-- **Building and flattening.** Flattened expressions are built again as they were. Tokens
cannot be built exactly when they close a list that they did not open; all others are,
with a list open for each opening parenthesis in excess. If there is none, the tokens are
those of the expressions; otherwise the expressions are those before the first opening
parenthesis that is never closed. -/
theorem build_balanced :
    (∀ exprs : List Datum, (∀ e ∈ exprs, e.IsExpression) →
      build (Datum.flatten exprs) = .ok { exprs, depth := 0 }) ∧
    ∀ ts : List Token,
      (build ts = .error .unmatchedClose ↔ Token.Overclosed ts) ∧
      (¬ Token.Overclosed ts → ∃ forest, build ts = .ok forest ∧
        (∀ e ∈ forest.exprs, e.IsExpression) ∧
        forest.depth + Token.closings ts = Token.openings ts ∧
        (forest.depth = 0 → Datum.flatten forest.exprs = ts) ∧
        (0 < forest.depth → ∃ before after, ts = before ++ .opening :: after ∧
          ¬ Token.Overclosed after ∧
          (∀ earlier later, ts = earlier ++ .opening :: later → earlier.length < before.length →
            Token.Overclosed later) ∧
          build before = .ok { exprs := forest.exprs, depth := 0 })) := by
  refine ⟨fun exprs => build_flatten, fun ts => ⟨?_, ?_⟩⟩
  · rw [build_eq_error_iff]
    refine ⟨Builder.overclosed_of_run_eq_error, fun hover => ?_⟩
    cases hrun : ({} : Builder).run ts with
    | ok b => exact absurd hover (Builder.not_overclosed_of_run hrun)
    | error e => rw [(Builder.run_eq_error hrun).1]
  · intro hover
    cases hrun : ({} : Builder).run ts with
    | error e => exact absurd (Builder.overclosed_of_run_eq_error hrun) hover
    | ok b =>
      have hb := Builder.run_eq_ok_iff.mp hrun
      refine ⟨b.forest, build_eq_ok_iff.mpr ⟨b, hrun, rfl⟩, ?_⟩
      rw [Builder.forest_eq]
      refine ⟨hb.outermost, by rw [hb.openings, Nat.add_comm], ?_, ?_⟩
      · intro hdepth
        obtain ⟨current, around⟩ := b
        obtain rfl := List.length_eq_zero_iff.mp hdepth
        rw [← hb.written]
        simp [Builder.written, Builder.outermost]
      · intro hdepth
        obtain ⟨after, rfl, hafter⟩ := hb.exists_open (List.length_pos_iff.mp hdepth)
        have hbefore := build_flatten hb.outermost
        refine ⟨_, after, rfl, hafter, ?_, hbefore⟩
        intro earlier later heq hlength
        obtain ⟨mid, hmid, rfl⟩ := exists_between heq.symm hlength
        obtain ⟨b', hrun', -⟩ := build_eq_ok_iff.mp hbefore
        have hbalanced := Datum.openings_flatten b.outermost.reverse
        have hclosed := Builder.not_overclosed_of_run hrun'
        rw [hmid] at hbalanced hclosed
        exact Token.overclosed_of_opening hbalanced hclosed

theorem build_balanced_unclosed_list :
    let exprs : List Datum := [.symbol "a", .list [.int 1, .list []]]
    let ts : List Token := [.identifier "a", .opening, .opening, .closing, .number (.int 1)]
    ((∀ e ∈ exprs, e.IsExpression) ∧ build (Datum.flatten exprs) = .ok { exprs, depth := 0 }) ∧
    ¬ Token.Overclosed ts ∧ ∃ forest, build ts = .ok forest ∧
      (∀ e ∈ forest.exprs, e.IsExpression) ∧
      forest.depth + Token.closings ts = Token.openings ts ∧
      (forest.depth = 0 → Datum.flatten forest.exprs = ts) ∧
      (0 < forest.depth → ∃ before after, ts = before ++ .opening :: after ∧
        ¬ Token.Overclosed after ∧
        (∀ earlier later, ts = earlier ++ .opening :: later → earlier.length < before.length →
          Token.Overclosed later) ∧
        build before = .ok { exprs := forest.exprs, depth := 0 }) := by
  intro exprs ts
  have hexprs : ∀ e ∈ exprs, e.IsExpression := by
    simp [exprs, Datum.IsExpression, Datum.leaves, Datum.leavesEach, Datum.token?]
  have hts : ¬ Token.Overclosed ts := by decide
  exact ⟨⟨hexprs, build_balanced.1 exprs hexprs⟩, hts, (build_balanced.2 ts).2 hts⟩

end SmallScheme
