import SmallScheme.Proofs.Building
import SmallScheme.Reader.Incremental

/-!
# Reading line by line is reading at once

A reader rereads its buffer with every line and forgets it at every point where no
list is open. All the same the lines together read as the one text they make up:
`lines_read_as_text` compares the two, faults included.

The proof follows a builder that never forgets. Between two lines the reader's buffer
reads as some builder (`Reader.Holds`), and the one that never forgets is that builder
preceded by what was handed out before (`Builder.precededBy`). One line preserves this
(`Reader.Holds.feed`), so all lines do (`Reader.Holds.feeds`).
-/

namespace SmallScheme

/-! ## Runs of the reader -/

/-- The expressions that a line completed. -/
def Feed.exprs (f : Feed) : List Datum :=
  match f.outcome with
  | .ok (.complete items) => items
  | _ => []

namespace Reader

/-- What reading each of several lines yields. -/
def feeds (r : Reader) : List String → List Feed
  | [] => []
  | line :: lines => r.feed line :: feeds (r.feed line).reader lines

/-- The reader after several lines. -/
def afterLines (r : Reader) (lines : List String) : Reader :=
  lines.foldl (fun r line => (r.feed line).reader) r

theorem getLast?_feeds (r : Reader) (lines : List String) (line : String) :
    (r.feeds (lines ++ [line])).getLast? = some ((r.afterLines lines).feed line) := by
  induction lines generalizing r with
  | nil => rfl
  | cons first lines ih =>
    show (r.feed first :: (r.feed first).reader.feeds (lines ++ [line])).getLast? = _
    rw [List.getLast?_cons, ih]
    rfl

/-! ## The joined text -/

/-- The line break that joining adds, or finds, keeps the two parts separate. -/
theorem lexemes_join {buffer : String} (hbuffer : Even (buffer.toList.count '"')) (line : String) :
    lexemes (join buffer line).toList = lexemes buffer.toList ++ lexemes line.toList := by
  have hbreak : Text.isBlank '\n' := by decide
  unfold join
  split_ifs with hjoined
  -- no break is added to an empty buffer, nor after one that the last line ended with
  · rcases hjoined with hempty | hlast
    · subst hempty
      simp [lexemes, locatedLexemes, Scanner.finish, Scanner.endWord]
    · obtain ⟨cs, hcs⟩ := List.getLast?_eq_some_iff.mp hlast
      have heven : Even (cs.count '"') := by simpa [hcs] using hbuffer
      have hnil : lexemes [] = [] := rfl
      rw [String.toList_append, hcs, List.append_assoc, List.singleton_append,
        lexemes_append_blank _ heven hbreak, lexemes_append_blank [] heven hbreak, hnil,
        List.append_nil]
  · rw [String.toList_append, String.toList_append, List.append_assoc]
    exact lexemes_append_blank line.toList hbuffer hbreak

/-! ## One line -/

/-- The outcome of a line, if the joined text can be read. -/
theorem feed_of_buildText {r : Reader} {line : String} {forest : Forest}
    (h : buildText (join r.buffer line) = .ok forest) :
    (r.feed line).outcome =
        .ok (if forest.depth > 0 then .incomplete else .complete forest.exprs) ∧
      (r.feed line).reader =
        if forest.depth > 0 then { buffer := join r.buffer line, depth := forest.depth }
        else {} := by
  rw [buildText, bind_eq_ok_iff] at h
  obtain ⟨tokens, htokens, hbuild⟩ := h
  rw [mapError_eq_ok_iff] at hbuild
  simp only [feed, htokens, hbuild]
  split_ifs <;> exact ⟨rfl, rfl⟩

theorem buildText_of_feed {r : Reader} {line : String} (h : (r.feed line).outcome.isOk) :
    ∃ forest, buildText (join r.buffer line) = .ok forest := by
  cases htokens : tokenize (join r.buffer line) with
  | error fault => simp [feed, htokens, Except.isOk, Except.toBool] at h
  | ok tokens =>
    cases hbuild : build tokens with
    | error e => simp [feed, htokens, hbuild, Except.isOk, Except.toBool] at h
    | ok forest => exact ⟨forest, by simp [buildText, htokens, hbuild, bind, Except.bind,
        Except.mapError]⟩

theorem incomplete_iff_depth_pos {r : Reader} {line : String} (h : (r.feed line).outcome.isOk) :
    (r.feed line).outcome = .ok .incomplete ↔ 0 < (r.feed line).reader.depth := by
  obtain ⟨forest, hforest⟩ := buildText_of_feed h
  obtain ⟨houtcome, hreader⟩ := feed_of_buildText hforest
  rw [houtcome, hreader]
  split_ifs with hdepth
  · simpa using hdepth
  · simp

/-- The last line asks for more if the reader then has a list open. -/
theorem incomplete_last_iff {r : Reader} {lines : List String} (hne : lines ≠ [])
    (hok : ∀ f ∈ r.feeds lines, f.outcome.isOk) :
    (r.feeds lines).getLast?.map Feed.outcome = some (.ok .incomplete) ↔
      0 < (r.afterLines lines).depth := by
  obtain ⟨init, line, rfl⟩ := (List.eq_nil_or_concat lines).resolve_left hne
  rw [List.concat_eq_append] at hok ⊢
  have hlast := getLast?_feeds r init line
  have hreader : r.afterLines (init ++ [line]) = ((r.afterLines init).feed line).reader := by
    simp [afterLines]
  rw [hreader, hlast, Option.map_some, Option.some.injEq]
  exact incomplete_iff_depth_pos (hok _ (List.mem_of_getLast? hlast))

/-- The buffer reads as a builder; without an open list it is empty. -/
structure Holds (r : Reader) (b : Builder) : Prop where
  read : ({} : Builder).read (lexemes r.buffer.toList) = .ok b
  depth : r.depth = b.around.length
  idle : b.around = [] → r.buffer = ""

namespace Holds

variable {r : Reader} {b : Builder}

theorem fresh : ({} : Reader).Holds {} :=
  ⟨rfl, rfl, fun _ => rfl⟩

theorem buildText_buffer (hr : r.Holds b) : buildText r.buffer = .ok b.forest :=
  buildText_eq_ok_iff.mpr ⟨b, hr.read, rfl⟩

/-- The joined text reads as the line does after the buffer. -/
theorem read_join (hr : r.Holds b) (line : String) :
    ({} : Builder).read (lexemes (join r.buffer line).toList) = b.read (lexemes line.toList) := by
  rw [lexemes_join (Builder.even_count_of_read hr.read), Builder.read_append, hr.read]
  rfl

/-- A line that can be read after the buffer: what it hands out, and what the reader
keeps, is what was built. -/
theorem feed (hr : r.Holds b) {line : String} {b' : Builder}
    (hread : b.read (lexemes line.toList) = .ok b') :
    (r.feed line).outcome.isOk ∧
      ∃ b₁, (r.feed line).reader.Holds b₁ ∧ b' = b₁.precededBy (r.feed line).exprs.reverse := by
  have htext : buildText (join r.buffer line) = .ok b'.forest :=
    buildText_eq_ok_iff.mpr ⟨b', by rw [hr.read_join, hread], rfl⟩
  obtain ⟨houtcome, hreader⟩ := feed_of_buildText htext
  rw [Builder.forest_eq] at houtcome hreader
  unfold Feed.exprs
  rw [houtcome, hreader]
  cases haround : b'.around with
  | nil =>
    -- all lists are closed: the reader starts afresh
    refine ⟨rfl, {}, fresh, ?_⟩
    obtain ⟨current, around⟩ := b'
    subst haround
    simp [Builder.precededBy, Builder.precededBy.go, Builder.outermost]
  | cons outer around =>
    -- a list is open: nothing is handed out, and the joined text is kept
    refine ⟨rfl, b', ⟨?_, ?_, ?_⟩, ?_⟩
    · simpa [hr.read_join] using hread
    · simp [haround]
    · simp [haround]
    · simp [Builder.precededBy_nil]

/-- A line that the reader accepts can be read after the buffer. -/
theorem read_of_feed (hr : r.Holds b) {line : String} (hok : (r.feed line).outcome.isOk) :
    ∃ b', b.read (lexemes line.toList) = .ok b' := by
  obtain ⟨forest, hforest⟩ := buildText_of_feed hok
  obtain ⟨b', hb', -⟩ := buildText_eq_ok_iff.mp hforest
  exact ⟨b', by rw [← hr.read_join, hb']⟩

/-! ## All lines -/

/-- The builder that never forgets is what the reader keeps, preceded by what was handed
out. -/
theorem feeds (hr : r.Holds b) {lines : List String} {done : List Datum} {whole : Builder}
    (hread : (b.precededBy done).read (lines.flatMap (lexemes ·.toList)) = .ok whole) :
    (∀ f ∈ r.feeds lines, f.outcome.isOk) ∧
      ∃ b', (r.afterLines lines).Holds b' ∧
        whole = b'.precededBy (((r.feeds lines).flatMap Feed.exprs).reverse ++ done) := by
  induction lines generalizing r b done with
  | nil =>
    cases hread
    exact ⟨by simp [Reader.feeds], b, hr, by simp [Reader.feeds]⟩
  | cons line lines ih =>
    rw [List.flatMap_cons, Builder.read_append_eq_ok_iff] at hread
    obtain ⟨whole₁, hline, hlines⟩ := hread
    rw [Builder.read_precededBy] at hline
    cases hb : b.read (lexemes line.toList) with
    | error fault => simp [hb] at hline
    | ok b' =>
      obtain ⟨hok, b₁, hr₁, rfl⟩ := hr.feed hb
      rw [hb, Except.map_ok, Except.ok.injEq, Builder.precededBy_precededBy] at hline
      subst hline
      obtain ⟨hoks, b₂, hr₂, hwhole⟩ := ih hr₁ hlines
      refine ⟨List.forall_mem_cons.mpr ⟨hok, hoks⟩, b₂, hr₂, ?_⟩
      rw [hwhole]
      simp [Reader.feeds]

theorem read_of_feeds (hr : r.Holds b) {lines : List String}
    (hok : ∀ f ∈ r.feeds lines, f.outcome.isOk) :
    ∃ whole, b.read (lines.flatMap (lexemes ·.toList)) = .ok whole := by
  induction lines generalizing r b with
  | nil => exact ⟨b, rfl⟩
  | cons line lines ih =>
    obtain ⟨hfirst, hrest⟩ := List.forall_mem_cons.mp hok
    obtain ⟨b', hb'⟩ := hr.read_of_feed hfirst
    obtain ⟨-, b₁, hr₁, rfl⟩ := hr.feed hb'
    obtain ⟨whole, hwhole⟩ := ih hr₁ hrest
    refine ⟨whole.precededBy (r.feed line).exprs.reverse, ?_⟩
    rw [List.flatMap_cons, Builder.read_append_eq_ok_iff]
    refine ⟨_, hb', ?_⟩
    rw [Builder.read_precededBy, hwhole, Except.map_ok]

end Holds

end Reader

theorem lexemes_lines {lines : List String} (h : ∀ l ∈ lines, Even (l.toList.count '"')) :
    lexemes ("\n".intercalate lines).toList = lines.flatMap (lexemes ·.toList) := by
  have hbreak : "\n".toList = ['\n'] := rfl
  exact lexemes_intercalate hbreak (by decide) h

theorem even_count_of_read_lines {lines : List String} {b whole : Builder}
    (h : b.read (lines.flatMap (lexemes ·.toList)) = .ok whole) :
    ∀ l ∈ lines, Even (l.toList.count '"') := by
  induction lines generalizing b with
  | nil => simp
  | cons line lines ih =>
    rw [List.flatMap_cons, Builder.read_append_eq_ok_iff] at h
    obtain ⟨b₁, hline, hlines⟩ := h
    exact List.forall_mem_cons.mpr ⟨Builder.even_count_of_read hline, ih hlines⟩

/-- All lines are accepted if and only if they can be read one after the other. -/
theorem accepted_iff (lines : List String) :
    (∀ f ∈ ({} : Reader).feeds lines, f.outcome.isOk) ↔
      ∃ whole, ({} : Builder).read (lines.flatMap (lexemes ·.toList)) = .ok whole := by
  constructor
  · intro hok
    exact Reader.Holds.fresh.read_of_feeds hok
  · rintro ⟨whole, hwhole⟩
    rw [← Builder.precededBy_nil {}] at hwhole
    exact (Reader.Holds.fresh.feeds hwhole).1

/-- **Line by line, or all at once.** A reader accepts all lines exactly when each has
its double quotes in pairs and the text that the lines make up can be read. Then what
it handed out, and what its buffer completes, are the expressions of that text; it has
as many lists open, and it asks for more if there is one. -/
theorem lines_read_as_text (lines : List String) (hlines : lines ≠ []) :
    let text := "\n".intercalate lines
    let feeds := ({} : Reader).feeds lines
    let last := ({} : Reader).afterLines lines
    ((∀ f ∈ feeds, f.outcome.isOk) ↔
      (∀ l ∈ lines, Even (l.toList.count '"')) ∧ (buildText text).isOk) ∧
    ((∀ f ∈ feeds, f.outcome.isOk) →
      ∃ forest rest, buildText text = .ok forest ∧ buildText last.buffer = .ok rest ∧
        feeds.flatMap Feed.exprs ++ rest.exprs = forest.exprs ∧
        last.depth = forest.depth ∧
        (feeds.getLast?.map Feed.outcome = some (.ok .incomplete) ↔ 0 < forest.depth)) := by
  intro text feeds last
  refine ⟨?_, ?_⟩
  · rw [accepted_iff]
    constructor
    · rintro ⟨whole, hwhole⟩
      have heven := even_count_of_read_lines hwhole
      rw [← lexemes_lines heven] at hwhole
      refine ⟨heven, ?_⟩
      rw [buildText_eq_ok_iff.mpr ⟨whole, hwhole, rfl⟩]
      rfl
    · rintro ⟨heven, hok⟩
      obtain ⟨forest, hforest⟩ := exists_of_isOk hok
      obtain ⟨whole, hwhole, -⟩ := buildText_eq_ok_iff.mp hforest
      exact ⟨whole, by rw [← lexemes_lines heven, hwhole]⟩
  · intro hok
    obtain ⟨whole, hwhole⟩ := (accepted_iff lines).mp hok
    have heven := even_count_of_read_lines hwhole
    have htext : buildText text = .ok whole.forest :=
      buildText_eq_ok_iff.mpr ⟨whole, by rw [lexemes_lines heven, hwhole], rfl⟩
    rw [← Builder.precededBy_nil {}] at hwhole
    obtain ⟨-, b, hlast, rfl⟩ := Reader.Holds.fresh.feeds hwhole
    rw [List.append_nil] at htext
    have hforest := Builder.forest_precededBy (feeds.flatMap Feed.exprs).reverse b
    have hdepth : last.depth = b.forest.depth := by
      rw [hlast.depth, Builder.forest_eq]
    refine ⟨_, b.forest, htext, hlast.buildText_buffer, ?_, ?_, ?_⟩
    · rw [hforest, List.reverse_reverse]
    · rw [hforest, hdepth]
    · rw [hforest, ← hdepth]
      exact Reader.incomplete_last_iff hlines hok

theorem lines_read_as_text_lists_across_lines :
    let feeds := ({} : Reader).feeds ["(a \")\"", "b) 1", "2 (c"]
    (∀ f ∈ feeds, f.outcome.isOk) ∧
      ∃ forest rest, buildText "(a \")\"\nb) 1\n2 (c" = .ok forest ∧ buildText "2 (c" = .ok rest ∧
        feeds.flatMap Feed.exprs ++ rest.exprs = forest.exprs ∧
        1 = forest.depth ∧
        (feeds.getLast?.map Feed.outcome = some (.ok .incomplete) ↔ 0 < forest.depth) := by
  intro feeds
  have hok : ∀ f ∈ feeds, f.outcome.isOk := by decide +kernel
  exact ⟨hok, (lines_read_as_text ["(a \")\"", "b) 1", "2 (c"] (by decide)).2 hok⟩

end SmallScheme
