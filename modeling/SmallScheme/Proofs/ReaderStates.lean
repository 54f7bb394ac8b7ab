import SmallScheme.Proofs.Findings
import SmallScheme.Proofs.LineReading
import SmallScheme.Proofs.Places

/-!
# The states of a reader

Between two lines a reader is in one of three states: it holds nothing, it holds a text
that leaves lists open, or it is stuck on an integer with too many digits. The depth that
it keeps beside its text tells the first two apart, and it is never out of step with the
text. Any error leads back to the first state. The last one is left only by a reset:
whatever is appended to a text, the text is read as before up to that integer
(`tokenize_join_of_oversized`).

Main statement: `reader_states`.
-/

namespace SmallScheme

/-! ## Appending to a text -/

theorem getLast?_word_ne_newline {spelling : List Char}
    (h : (Lexeme.word spelling).WellFormed) : spelling.getLast? ≠ some '\n' := by
  intro hlast
  have hword : isWordChar '\n' := h.2 _ (List.mem_of_getLast? hlast)
  exact absurd hword (by decide)

/-- A lexeme that ends before `rest` still does with `b` appended, unless it is a string
without an end: either `b` does not go on with a word, or the text ended with a newline. -/
theorem Lexeme.EndsBefore.append {l : Lexeme} (hl : l.WellFormed)
    (hterminated : ∀ content, l ≠ .unterminated content) {rest b : List Char}
    (hrest : l.EndsBefore rest)
    (hb : (∀ c ∈ b.head?, isWordChar c = false) ∨ (l.chars ++ rest).getLast? = some '\n') :
    l.EndsBefore (rest ++ b) := by
  cases l with
  | unterminated content => exact absurd rfl (hterminated content)
  | word spelling =>
    cases rest with
    | cons c rest => simpa [EndsBefore] using hrest
    | nil =>
      rcases hb with hb | hlast
      · exact hb
      · rw [List.append_nil] at hlast
        exact absurd hlast (getLast?_word_ne_newline hl)
  | _ => trivial

/-- Appending to a text leaves the lexemes up to any word as they are, if there is a break
between the two. -/
theorem lexemes_append_of_word (a : List Char) {b : List Char} {before after : List Lexeme}
    {w : List Char} (h : lexemes a = before ++ .word w :: after)
    (hb : (∀ c ∈ b.head?, isWordChar c = false) ∨ a.getLast? = some '\n') :
    ∃ after', lexemes (a ++ b) = before ++ .word w :: after' := by
  induction a using lexemeInduction generalizing before with
  | nil => cases before <;> cases h
  | blank c cs hc ih =>
    rw [lexemes_cons_blank hc] at h
    rw [List.cons_append, lexemes_cons_blank hc]
    refine ih h (hb.imp_right ?_)
    intro hlast
    cases cs with
    | nil => cases before <;> cases h
    | cons d cs => rwa [List.getLast?_cons_cons] at hlast
  | lexeme first rest hfirst hrest ih =>
    rw [lexemes_chars hfirst hrest] at h
    have hterminated : ∀ content, first ≠ .unterminated content := by
      rintro content rfl
      -- nothing follows a string without an end
      obtain rfl : rest = [] := hrest
      rcases before with _ | ⟨m, _ | ⟨m', before⟩⟩ <;> cases h
    rw [List.append_assoc, lexemes_chars hfirst (hrest.append hfirst hterminated hb)]
    cases before with
    | nil =>
      obtain ⟨rfl, -⟩ := List.cons.inj h
      exact ⟨_, rfl⟩
    | cons m before =>
      obtain ⟨rfl, hafter⟩ := List.cons.inj h
      have hne : rest ≠ [] := by
        rintro rfl
        cases before <;> cases hafter
      obtain ⟨after', hafter'⟩ := ih hafter (hb.imp_right fun hlast => by
        rwa [List.getLast?_append_of_ne_nil _ hne] at hlast)
      exact ⟨after', by rw [hafter', List.cons_append]⟩

theorem Token.word_of_oversized {l : Lexeme} {o : Oversized}
    (h : ofLexeme l = .error (.oversized o)) : ∃ w, l = .word w := by
  cases l with
  | word w => exact ⟨w, rfl⟩
  | _ => cases h

/-- Errors of finding tokens are errors of lexing. -/
theorem lexing_of_tokenize {text : String} {e : Error} (h : tokenize text = .error (.error e)) :
    e.kind = .lexing := by
  rw [tokenize_eq_mapM, mapM_eq_error_iff] at h
  obtain ⟨-, l, -, -, -, hl⟩ := h
  cases l with
  | word w =>
    rcases Token.ofWord_eq_error hl with heq | ⟨-, _, heq⟩
    · cases heq
      rfl
    · cases heq
  | unterminated content =>
    cases hl
    rfl
  | _ => cases hl

namespace Reader

/-- Lines that are appended do not help against an integer with too many digits. -/
theorem tokenize_join_of_oversized {text : String} {o : Oversized}
    (h : tokenize text = .error (.oversized o)) (line : String) :
    tokenize (join text line) = .error (.oversized o) := by
  rw [tokenize_eq_mapM, mapM_eq_error_iff] at h ⊢
  obtain ⟨before, l, after, hlexemes, hbefore, hl⟩ := h
  obtain ⟨w, rfl⟩ := Token.word_of_oversized hl
  suffices hjoin : ∃ after', lexemes (join text line).toList = before ++ .word w :: after' by
    obtain ⟨after', hafter'⟩ := hjoin
    exact ⟨before, .word w, after', hafter', hbefore, hl⟩
  unfold join
  split_ifs with hjoined
  · rcases hjoined with rfl | hlast
    · cases before <;> cases hlexemes
    · rw [String.toList_append]
      exact lexemes_append_of_word _ hlexemes (.inr hlast)
  · rw [String.toList_append, String.toList_append, List.append_assoc]
    refine lexemes_append_of_word _ hlexemes (.inl ?_)
    intro c hc
    obtain rfl : '\n' = c := Option.some.inj hc
    decide

/-! ## One line -/

variable {r : Reader}

theorem feed_of_fault {line : String} {fault : Fault}
    (h : tokenize (join r.buffer line) = .error fault) :
    (r.feed line).outcome = .error fault ∧
      (r.feed line).reader = r.afterFault (join r.buffer line) fault := by
  simp only [feed, h, and_self]

/-- An error leaves nothing behind. -/
theorem feed_of_error {line : String} {e : Error}
    (h : (r.feed line).outcome = .error (.error e)) :
    (e.kind = .lexing ∨ e.kind = .parsing) ∧ (r.feed line).reader = {} := by
  cases htokens : tokenize (join r.buffer line) with
  | error fault =>
    obtain ⟨houtcome, hreader⟩ := feed_of_fault htokens
    obtain rfl : fault = .error e := Except.error.inj (houtcome.symm.trans h)
    exact ⟨.inl (lexing_of_tokenize htokens), hreader⟩
  | ok tokens =>
    simp only [feed, htokens] at h ⊢
    cases hbuild : build tokens with
    | error e' =>
      simp only [hbuild, Except.error.injEq, Fault.error.injEq] at h ⊢
      obtain rfl := h
      obtain ⟨rfl, -⟩ := Builder.run_eq_error (build_eq_error_iff.mp hbuild)
      exact ⟨.inr rfl, trivial⟩
    | ok forest =>
      simp only [hbuild] at h
      split at h <;> cases h

/-- Expressions that are complete leave nothing behind. -/
theorem feed_of_complete {line : String} {exprs : List Datum}
    (h : (r.feed line).outcome = .ok (.complete exprs)) : (r.feed line).reader = {} := by
  have hok : (r.feed line).outcome.isOk := by
    rw [h]
    rfl
  obtain ⟨forest, hforest⟩ := buildText_of_feed hok
  obtain ⟨houtcome, hreader⟩ := feed_of_buildText hforest
  rw [houtcome] at h
  by_cases hdepth : forest.depth > 0
  · rw [if_pos hdepth] at h
    cases h
  · rw [hreader, if_neg hdepth]

/-- The buffer has an integer with too many digits, before anything else at fault. -/
def Stuck (r : Reader) (o : Oversized) : Prop :=
  tokenize r.buffer = .error (.oversized o)

theorem tokenize_of_feed {line : String} {o : Oversized}
    (h : (r.feed line).outcome = .error (.oversized o)) :
    tokenize (join r.buffer line) = .error (.oversized o) := by
  cases htokens : tokenize (join r.buffer line) with
  | error fault =>
    obtain rfl : fault = .oversized o := Except.error.inj ((feed_of_fault htokens).1.symm.trans h)
    rfl
  | ok tokens =>
    simp only [feed, htokens] at h
    cases hbuild : build tokens with
    | error e =>
      simp only [hbuild] at h
      cases h
    | ok forest =>
      simp only [hbuild] at h
      split at h <;> cases h

theorem stuck_of_feed {line : String} {o : Oversized}
    (h : (r.feed line).outcome = .error (.oversized o)) :
    (r.feed line).reader.Stuck o ∧ (r.feed line).reader.depth = r.depth := by
  have htokens := tokenize_of_feed h
  rw [(feed_of_fault htokens).2]
  exact ⟨htokens, rfl⟩

/-- A reader that is stuck stays stuck. -/
theorem Stuck.feed {o : Oversized} (hr : r.Stuck o) (line : String) :
    (r.feed line).outcome = .error (.oversized o) ∧ (r.feed line).reader.Stuck o ∧
      (r.feed line).reader.depth = r.depth := by
  have houtcome := (feed_of_fault (tokenize_join_of_oversized hr line)).1
  exact ⟨houtcome, stuck_of_feed houtcome⟩

/-- A reader that is not stuck holds nothing, or a text that leaves lists open. -/
theorem Holds.feed_of_not_oversized {b : Builder} (hr : r.Holds b) {line : String}
    (h : ∀ o, (r.feed line).outcome ≠ .error (.oversized o)) :
    ∃ b', (r.feed line).reader.Holds b' := by
  cases houtcome : (r.feed line).outcome with
  | error fault =>
    cases fault with
    | error e =>
      rw [(feed_of_error houtcome).2]
      exact ⟨{}, .fresh⟩
    | oversized o => exact absurd houtcome (h o)
  | ok progress =>
    obtain ⟨b', hread⟩ := hr.read_of_feed (by rw [houtcome]; rfl)
    obtain ⟨-, b₁, hr₁, -⟩ := hr.feed hread
    exact ⟨b₁, hr₁⟩

/-! ## Runs -/

theorem Stuck.feeds {o : Oversized} (hr : r.Stuck o) (lines : List String) :
    (∀ f ∈ r.feeds lines, f.outcome = .error (.oversized o)) ∧
      (r.afterLines lines).depth = r.depth := by
  induction lines generalizing r with
  | nil => exact ⟨by simp [Reader.feeds], rfl⟩
  | cons line lines ih =>
    obtain ⟨houtcome, hstuck, hdepth⟩ := hr.feed line
    obtain ⟨houtcomes, hdepths⟩ := ih hstuck
    exact ⟨List.forall_mem_cons.mpr ⟨houtcome, houtcomes⟩, hdepths.trans hdepth⟩

theorem Holds.feeds_of_not_oversized {b : Builder} (hr : r.Holds b) {lines : List String}
    (h : ∀ f ∈ r.feeds lines, ∀ o, f.outcome ≠ .error (.oversized o)) :
    ∃ b', (r.afterLines lines).Holds b' := by
  induction lines generalizing r b with
  | nil => exact ⟨b, hr⟩
  | cons line lines ih =>
    obtain ⟨hline, hlines⟩ := List.forall_mem_cons.mp h
    obtain ⟨b', hr'⟩ := hr.feed_of_not_oversized hline
    exact ih hr' hlines

/-- What is done with a reader. -/
inductive Action where
  | feed (line : String)
  | reset

/-- The reader after one step. -/
def act (r : Reader) : Action → Reader
  | .feed line => (r.feed line).reader
  | .reset => r.reset

/-- The reader after several steps. -/
def afterActions (r : Reader) (actions : List Action) : Reader :=
  actions.foldl act r

theorem afterActions_feeds (r : Reader) (actions : List Action) (lines : List String) :
    r.afterActions (actions ++ lines.map .feed) = (r.afterActions actions).afterLines lines := by
  rw [afterActions, List.foldl_append, List.foldl_map]
  rfl

/-- After a reset a reader holds nothing. -/
theorem afterActions_of_reset {actions : List Action}
    (h : actions = [] ∨ actions.getLast? = some .reset) :
    ({} : Reader).afterActions actions = {} := by
  rcases h with rfl | hlast
  · rfl
  · obtain ⟨init, rfl⟩ := List.getLast?_eq_some_iff.mp hlast
    rw [afterActions, List.foldl_append]
    rfl

/-- **The states of a reader.** Whatever was done with a reader before:

1. if no line since the last reset met an integer with too many digits, the reader holds
   nothing and its depth is zero, or its text leaves as many lists open as its depth says,
   and that is one at least;
2. a line that leads to another error leaves the reader as it was made;
3. a line that meets an integer with too many digits leaves the depth as it was, and every
   line after it, up to the next reset, meets the same integer. -/
theorem reader_states (actions : List Action) :
    let r := ({} : Reader).afterActions actions
    (actions = [] ∨ actions.getLast? = some .reset →
      ∀ lines, (∀ f ∈ r.feeds lines, ∀ o, f.outcome ≠ .error (.oversized o)) →
        let r' := ({} : Reader).afterActions (actions ++ lines.map .feed)
        (r'.buffer = "" ∧ r'.depth = 0) ∨
          (0 < r'.depth ∧
            ∃ forest, buildText r'.buffer = .ok forest ∧ forest.depth = r'.depth)) ∧
    (∀ line e, (r.feed line).outcome = .error (.error e) →
      (e.kind = .lexing ∨ e.kind = .parsing) ∧
        (r.feed line).reader.buffer = "" ∧ (r.feed line).reader.depth = 0 ∧
        ∀ next, (r.feed line).reader.feed next = ({} : Reader).feed next) ∧
    ∀ line o, (r.feed line).outcome = .error (.oversized o) →
      (r.feed line).reader.depth = r.depth ∧
        ∀ later, (∀ f ∈ (r.feed line).reader.feeds later, f.outcome = .error (.oversized o)) ∧
          ((r.feed line).reader.afterLines later).depth = r.depth := by
  intro r
  refine ⟨?_, ?_, ?_⟩
  · intro hreset lines hlines r'
    have hfresh : r = {} := afterActions_of_reset hreset
    have hr' : r' = ({} : Reader).afterLines lines := by
      rw [← hfresh]
      exact afterActions_feeds {} actions lines
    rw [hfresh] at hlines
    obtain ⟨b, hb⟩ := Holds.fresh.feeds_of_not_oversized hlines
    rw [← hr'] at hb
    cases haround : b.around with
    | nil =>
      refine .inl ⟨hb.idle haround, ?_⟩
      rw [hb.depth, haround, List.length_nil]
    | cons outer around =>
      refine .inr ⟨?_, b.forest, hb.buildText_buffer, ?_⟩
      · rw [hb.depth, haround, List.length_cons]
        omega
      · rw [Builder.forest_eq, hb.depth]
  · intro line e he
    obtain ⟨hkind, hreader⟩ := feed_of_error he
    rw [hreader]
    exact ⟨hkind, rfl, rfl, fun _ => rfl⟩
  · intro line o ho
    obtain ⟨hstuck, hdepth⟩ := stuck_of_feed ho
    refine ⟨hdepth, ?_⟩
    intro later
    obtain ⟨houtcomes, hdepths⟩ := hstuck.feeds later
    exact ⟨houtcomes, hdepths.trans hdepth⟩

/-- A list that is open, closed once too often, or followed by an integer with a digit too
many. -/
theorem reader_states_open_list :
    let r := ({} : Reader).afterActions [.feed "(a"]
    ((r.buffer = "" ∧ r.depth = 0) ∨
      (0 < r.depth ∧ ∃ forest, buildText r.buffer = .ok forest ∧ forest.depth = r.depth)) ∧
    ((r.feed "))").outcome = .error (.error .unmatchedClose) ∧
      ∀ next, (r.feed "))").reader.feed next = ({} : Reader).feed next) ∧
    ∃ line : String, (r.feed line).outcome = .error (.oversized (.literal (digitLimit + 1))) ∧
      ∀ later, ∀ f ∈ (r.feed line).reader.feeds later,
        f.outcome = .error (.oversized (.literal (digitLimit + 1))) := by
  intro r
  have hr : r = { buffer := "(a", depth := 1 } := rfl
  obtain ⟨digits, hdigits, hlength⟩ :
      ∃ digits, Text.isDigits digits ∧ digits.length = digitLimit + 1 := by
    refine ⟨List.replicate (digitLimit + 1) '1', ?_, List.length_replicate⟩
    rw [Text.isDigits]
    simp
  have htokens : tokenize (join r.buffer (String.ofList digits)) =
      .error (.oversized (.literal (digitLimit + 1))) := by
    have heven : Even (r.buffer.toList.count '"') := by
      rw [hr]
      exact ⟨0, rfl⟩
    have hword : lexemes digits = [.word digits] := (Text.isWord_of_isDigits hdigits).lexemes
    rw [tokenize_eq_mapM, lexemes_join heven, String.toList_ofList, hword, mapM_eq_error_iff]
    refine ⟨lexemes r.buffer.toList, .word digits, [], rfl, by decide +kernel, ?_⟩
    simp only [Token.ofLexeme, ← hlength]
    exact Token.ofWord_of_too_many_digits hdigits (by omega)
  have hoversized := (feed_of_fault htokens).1
  have hclosed : (r.feed "))").outcome = .error (.error .unmatchedClose) := by
    rw [hr]
    rfl
  refine ⟨?_, ⟨hclosed, ?_⟩, String.ofList digits, hoversized, ?_⟩
  · have hfeeds : ∀ f ∈ ({} : Reader).feeds ["(a"], ∀ o, f.outcome ≠ .error (.oversized o) := by
      intro f hf o ho
      rw [List.mem_singleton.mp hf] at ho
      cases ho
    have hopen := (reader_states []).1 (.inl rfl) ["(a"] hfeeds
    simpa only [List.nil_append, List.map_cons, List.map_nil] using hopen
  · exact ((reader_states [.feed "(a"]).2.1 "))" _ hclosed).2.2.2
  · intro later
    exact (((reader_states [.feed "(a"]).2.2 _ _ hoversized).2 later).1

end Reader

end SmallScheme
