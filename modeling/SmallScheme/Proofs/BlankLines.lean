import SmallScheme.Proofs.ReadLoops

/-!
# Blank lines go unseen

Between expressions the read loop drops a blank line. Inside a list it feeds an empty line to
the reader, which then holds a text with one more newline at its end. That newline is the one
that the next line would have brought along (`Reader.join_join_empty`), so the two readers go
on alike.

* **`Reader.Continues`** — whatever comes next, both readers make the same text of it;
* **`handle_resumed`**, **`handle_blank`** — a line that both sessions take, and one that only
  the second one does;
* **`handleAll_spaced`** — all lines, by induction over the places of the inserted ones;
* **`blank_lines_unseen`** — whole sessions: the only trace of a blank line is its prompt.
-/

namespace SmallScheme

/-! ## Readers that go on alike -/

namespace Reader

/-- The readers have as many lists open, and with any further line they make the same text. -/
structure Continues (r r' : Reader) : Prop where
  depth : r'.depth = r.depth
  join : ∀ line, join r'.buffer line = join r.buffer line

theorem Continues.refl (r : Reader) : r.Continues r := ⟨rfl, fun _ => rfl⟩

/-- An empty line adds the newline that the line after it would have added. -/
theorem join_join_empty (buffer line : String) :
    join (join buffer "") line = join buffer line := by
  by_cases hjoined : buffer = "" ∨ buffer.toList.getLast? = some '\n'
  · have hempty : join buffer "" = buffer := by
      rw [join, if_pos hjoined, String.append_empty]
    rw [hempty]
  · have hempty : join buffer "" = buffer ++ "\n" := by
      rw [join, if_neg hjoined, String.append_empty]
    have hbreak : (buffer ++ "\n").toList.getLast? = some '\n' := by
      rw [String.toList_append]
      exact List.getLast?_concat
    rw [hempty, join, if_pos (.inr hbreak), join, if_neg hjoined]

theorem Continues.feed {r r' : Reader} (h : r.Continues r') (line : String) :
    r'.feed line = r.feed line := by
  obtain ⟨buffer, depth⟩ := r
  obtain ⟨buffer', depth'⟩ := r'
  obtain ⟨rfl, hjoin⟩ := h
  simp only [Reader.feed, hjoin]
  rfl

/-- Inside a list an empty line changes nothing but the end of the buffer. -/
theorem Holds.feed_empty {r : Reader} {b : Builder} (hr : r.Holds b) (hpending : r.pending) :
    (r.feed "").outcome = .ok .incomplete ∧
      (r.feed "").reader = { r with buffer := Reader.join r.buffer "" } := by
  have hread : ({} : Builder).read (lexemes (Reader.join r.buffer "").toList) = .ok b :=
    hr.read_join ""
  have htext := buildText_eq_ok_iff.mpr ⟨b, hread, rfl⟩
  have hdepth : b.forest.depth = r.depth := by rw [Builder.forest_eq, hr.depth]
  have hopen : b.forest.depth > 0 := by simpa [hdepth, pending] using hpending
  obtain ⟨houtcome, hreader⟩ := feed_of_buildText htext
  rw [if_pos hopen] at houtcome hreader
  rw [hdepth] at hreader
  exact ⟨houtcome, hreader⟩

end Reader

/-! ## One line -/

-- the reader is followed by its lemmas: unfolding would run the scanner
section Lines

attribute [local irreducible] Reader.feed

/-- Readers that go on alike make the same step of any line. -/
theorem Interpreter.step_of_continues {i : Interpreter} {r : Reader}
    (h : i.reader.Continues r) (line : String) :
    ({ i with reader := r } : Interpreter).step line = i.step line := by
  have hfeed : ({ i with reader := r } : Interpreter).feed line = i.feed line := by
    simp only [Interpreter.feed, h.feed line]
  unfold Interpreter.step
  rw [hfeed]

namespace ReadLoop

variable {l : ReadLoop} {r : Reader} {line : String}

/-- The same loop with another reader. -/
def resumed (l : ReadLoop) (r : Reader) : ReadLoop :=
  { l with interpreter := { l.interpreter with reader := r } }

/-- What holds between two lines of a session: it is steady, and what was logged has been
written. -/
structure Rested (l : ReadLoop) : Prop extends l.Steady where
  trace : l.interpreter.machine.trace = #[]

theorem rested_fresh (limit : Nat) (promptStart : String) :
    Rested { interpreter := .fresh limit, promptStart } :=
  ⟨steady_fresh limit promptStart, rfl⟩

theorem Rested.handle (h : l.Rested) (hgoes : (l.handle line).escaped? = none) :
    (l.handle line).loop.Rested := by
  refine ⟨h.toSteady.handle hgoes, ?_⟩
  rcases l.handle_cases line with heq | heq
  · rw [heq]
    show (l.interpreter.step (counted line)).interpreter.machine.trace = #[]
    rw [Interpreter.interpreter_step]
    rfl
  · rw [heq]
    exact h.trace

theorem Takes.rested {l l' : ReadLoop} {inputs : List Input} {es : List Emission}
    (ht : l.Takes inputs es l') (h : l.Rested) : l'.Rested := by
  induction ht with
  | nil => exact h
  | cons hgoes _ ih => exact ih (h.handle hgoes)

theorem submit_resumed (h : l.interpreter.reader.Continues r) (line : String) :
    (l.resumed r).submit line = l.submit line := by
  unfold submit resumed
  rw [Interpreter.step_of_continues h]

/-- A line that both loops take: they answer it alike, and go on alike. -/
theorem handle_resumed (h : l.interpreter.reader.Continues r) (line : String) :
    ∃ r', (l.handle line).loop.interpreter.reader.Continues r' ∧
      (l.resumed r).handle line =
        { l.handle line with loop := (l.handle line).loop.resumed r' } := by
  have hpending : r.pending = l.interpreter.reader.pending := by
    rw [Reader.pending, h.depth, Reader.pending]
  -- after a line that counts, the two loops are the same
  have hsubmit (text : String) : ∃ r', (l.submit text).loop.interpreter.reader.Continues r' ∧
      (l.resumed r).submit text =
        { l.submit text with loop := (l.submit text).loop.resumed r' } :=
    ⟨_, .refl _, submit_resumed h text⟩
  unfold handle
  rw [show (l.resumed r).interpreter.reader.pending = l.interpreter.reader.pending from hpending]
  by_cases hblank : isBlankLine line
  · rw [if_pos hblank, if_pos hblank]
    by_cases hopen : l.interpreter.reader.pending
    · rw [if_pos hopen, if_pos hopen]
      exact hsubmit ""
    · rw [if_neg hopen, if_neg hopen]
      exact ⟨r, h, rfl⟩
  · rw [if_neg hblank, if_neg hblank]
    exact hsubmit line

/-- An empty line inside a list: nothing is shown, and only the buffer ends differently. -/
theorem Rested.submit_empty (h : l.Rested) (hpending : l.interpreter.reader.pending) :
    (l.submit "").escaped? = none ∧ Emission.shown (l.submit "").emissions = [] ∧
      (l.submit "").loop = l.resumed
        { l.interpreter.reader with buffer := Reader.join l.interpreter.reader.buffer "" } := by
  obtain ⟨b, hb⟩ := h.reader
  obtain ⟨houtcome, hreader⟩ := hb.feed_empty hpending
  have hfeed := Interpreter.feed_of_incomplete houtcome
  have hprompt : l.prompt = promptText l.promptStart l.interpreter.reader.depth := h.prompt
  obtain ⟨⟨reader, ⟨heap, trace⟩, limit⟩, promptStart, prompt⟩ := l
  obtain rfl : trace = #[] := h.trace
  obtain rfl : prompt = promptText promptStart reader.depth := hprompt
  simp only [submit, Interpreter.step, hfeed, Interpreter.takeTrace, Emission.shown_events,
    Interpreter.ready, Interpreter.record, resumed, Interpreter.depth, hreader, and_self]

/-- A line that only the second loop takes. -/
theorem handle_blank (hl : l.Rested) (h : l.interpreter.reader.Continues r)
    (hblank : isBlankLine line) :
    ∃ r', l.interpreter.reader.Continues r' ∧ ((l.resumed r).handle line).escaped? = none ∧
      Emission.shown ((l.resumed r).handle line).emissions = [] ∧
      ((l.resumed r).handle line).loop = l.resumed r' := by
  have hpending : (l.resumed r).interpreter.reader.pending = l.interpreter.reader.pending := by
    show r.pending = _
    rw [Reader.pending, h.depth, Reader.pending]
  unfold handle
  rw [if_pos hblank, hpending]
  by_cases hopen : l.interpreter.reader.pending
  · rw [if_pos hopen, submit_resumed h]
    exact ⟨{ l.interpreter.reader with buffer := Reader.join l.interpreter.reader.buffer "" },
      ⟨rfl, Reader.join_join_empty _⟩, hl.submit_empty hopen⟩
  · rw [if_neg hopen]
    exact ⟨r, h, rfl, rfl, rfl⟩

/-! ## All lines -/

/-- The second list is the first one with blank lines inserted. -/
inductive Spaced : List String → List String → Prop
  | nil : Spaced [] []
  | line (line : String) {lines spaced : List String} :
      Spaced lines spaced → Spaced (line :: lines) (line :: spaced)
  | blank {line : String} {lines spaced : List String} :
      isBlankLine line → Spaced lines spaced → Spaced lines (line :: spaced)

end ReadLoop

namespace Emission

/-- The second list is the first one with so many more prompts, each of them right before
another prompt with the same text. -/
inductive Reprompts : Nat → List Emission → List Emission → Prop
  | nil : Reprompts 0 [] []
  | cons (e : Emission) {n : Nat} {es fs : List Emission} :
      Reprompts n es fs → Reprompts n (e :: es) (e :: fs)
  | again {text : String} {n : Nat} {es fs : List Emission} :
      Reprompts n es (.prompt text :: fs) →
      Reprompts (n + 1) es (.prompt text :: .prompt text :: fs)

namespace Reprompts

variable {n : Nat} {es fs : List Emission}

theorem refl (es : List Emission) : Reprompts 0 es es := by
  induction es with
  | nil => exact .nil
  | cons e es ih => exact .cons e ih

theorem append_left (as : List Emission) (h : Reprompts n es fs) :
    Reprompts n (as ++ es) (as ++ fs) := by
  induction as with
  | nil => exact h
  | cons a as ih => exact .cons a ih

theorem append_right (h : Reprompts n es fs) (bs : List Emission) :
    Reprompts n (es ++ bs) (fs ++ bs) := by
  induction h with
  | nil => exact refl bs
  | cons e _ ih => exact .cons e ih
  | again _ ih => exact .again ih

/-- Prompts are not values. -/
theorem values (h : Reprompts n es fs) : fs.filterMap value? = es.filterMap value? := by
  induction h with
  | nil => rfl
  | cons e _ ih => rw [List.filterMap_cons, List.filterMap_cons, ih]
  | again _ ih => exact ih

/-- Prompts are not written on the error output. -/
theorem errorText (h : Reprompts n es fs) (verbose : Bool) :
    Emission.errorText verbose fs = Emission.errorText verbose es := by
  induction h with
  | nil => rfl
  | @cons e _ es fs _ ih =>
    rw [← List.singleton_append, errorText_append, ih, ← errorText_append, List.singleton_append]
  | @again text _ es fs _ ih =>
    have hprompt : Emission.errorText verbose [.prompt text] = "" := rfl
    rw [← List.singleton_append, errorText_append, hprompt, ih, String.empty_append]

end Reprompts

end Emission

namespace ReadLoop

open Emission (Reprompts shown)

variable {l : ReadLoop} {r : Reader} {line : String} {lines spaced : List String}

theorem handleAll_cons (hgoes : (l.handle line).escaped? = none) :
    l.handleAll true (line :: lines) =
      { (l.handle line).loop.handleAll true lines with
        emissions := .prompt l.prompt :: (l.handle line).emissions ++
          ((l.handle line).loop.handleAll true lines).emissions } := by
  simp only [handleAll, hgoes]
  rfl

theorem handleAll_cons_of_escaped {o : Oversized} (hescaped : (l.handle line).escaped? = some o) :
    l.handleAll true (line :: lines) =
      { l.handle line with emissions := .prompt l.prompt :: (l.handle line).emissions } := by
  simp only [handleAll, hescaped]
  rfl

/-- With the prompt for what comes after them, the answers to lines start with the prompt of
the loop. -/
theorem shown_handleAll (hgoes : (l.handleAll true lines).escaped? = none) :
    ∃ es, shown (l.handleAll true lines).emissions ++
      [.prompt (l.handleAll true lines).loop.prompt] = .prompt l.prompt :: es := by
  cases lines with
  | nil => exact ⟨[], rfl⟩
  | cons line lines =>
    cases hescaped : (l.handle line).escaped? with
    | none =>
      rw [handleAll_cons hescaped]
      exact ⟨_, rfl⟩
    | some o =>
      rw [handleAll_cons_of_escaped hescaped, hescaped] at hgoes
      cases hgoes

/-- Lines with blank ones inserted end the loop where the lines alone do; if they do not, the
loops go on alike, and there is one more prompt for each blank line. -/
theorem handleAll_spaced (h : Spaced lines spaced) (hl : l.Rested)
    (hr : l.interpreter.reader.Continues r) :
    let t := l.handleAll true lines
    let t' := (l.resumed r).handleAll true spaced
    t'.escaped? = t.escaped? ∧
      (t.escaped? = none →
        ∃ r' n, t.loop.interpreter.reader.Continues r' ∧ t'.loop = t.loop.resumed r' ∧
          spaced.length = lines.length + n ∧
          Reprompts n (shown t.emissions ++ [.prompt t.loop.prompt])
            (shown t'.emissions ++ [.prompt t'.loop.prompt])) := by
  induction h generalizing l r with
  | nil => exact ⟨rfl, fun _ => ⟨r, 0, hr, rfl, rfl, .refl _⟩⟩
  | @line line lines spaced _ ih =>
    obtain ⟨r', hr', hhandle⟩ := handle_resumed hr line
    cases hescaped : (l.handle line).escaped? with
    | some o =>
      have hescaped' : ((l.resumed r).handle line).escaped? = some o := by rw [hhandle, hescaped]
      rw [handleAll_cons_of_escaped hescaped, handleAll_cons_of_escaped hescaped', hhandle]
      refine ⟨rfl, fun hgoes => ?_⟩
      rw [show (l.handle line).escaped? = none from hgoes] at hescaped
      cases hescaped
    | none =>
      have hescaped' : ((l.resumed r).handle line).escaped? = none := by rw [hhandle, hescaped]
      obtain ⟨hsame, hrest⟩ := ih (hl.handle hescaped) hr'
      rw [handleAll_cons hescaped, handleAll_cons hescaped', hhandle]
      refine ⟨hsame, fun hgoes => ?_⟩
      obtain ⟨r'', n, hr'', hloop, hlength, hes⟩ := hrest hgoes
      refine ⟨r'', n, hr'', hloop, ?_, ?_⟩
      · rw [List.length_cons, List.length_cons, hlength]
        omega
      · -- both loops show their prompt and the same answer before the rest
        have hfirst := hes.append_left (shown (.prompt l.prompt :: (l.handle line).emissions))
        rw [← List.append_assoc, ← List.append_assoc, ← Emission.shown_append,
          ← Emission.shown_append] at hfirst
        exact hfirst
  | @blank line lines spaced hblank _ ih =>
    obtain ⟨r', hr', hescaped, hshown, hloop⟩ := handle_blank hl hr hblank
    obtain ⟨hsame, hrest⟩ := ih hl hr'
    rw [handleAll_cons hescaped, hloop]
    refine ⟨hsame, fun hgoes => ?_⟩
    obtain ⟨r'', n, hr'', hloop', hlength, hes⟩ := hrest hgoes
    refine ⟨r'', n + 1, hr'', hloop', ?_, ?_⟩
    · rw [List.length_cons, hlength]
      omega
    · obtain ⟨fs, hfs⟩ := shown_handleAll (hsame.trans hgoes)
      -- the loop shows its prompt, nothing, and the same prompt again
      have hagain : shown (.prompt l.prompt :: ((l.resumed r).handle line).emissions ++
            ((l.resumed r').handleAll true spaced).emissions) ++
          [.prompt ((l.resumed r').handleAll true spaced).loop.prompt] =
          .prompt l.prompt :: .prompt l.prompt :: fs := by
        rw [Emission.shown_append, ← List.singleton_append, Emission.shown_append, hshown,
          List.append_assoc, hfs]
        rfl
      show Reprompts (n + 1) _ (shown (.prompt l.prompt :: _ ++ _) ++ _)
      rw [hagain]
      rw [hfs] at hes
      exact .again hes

end ReadLoop

end Lines

/-! ## Sessions -/

namespace ReadLoop

open Emission (Reprompts shown)

/-- The lines of the input are taken after the queue, and the session ends with a prompt and a
line end. -/
theorem run_of_queue {l : ReadLoop} {queue : List String}
    (hqueue : (l.handleAll false queue).escaped? = none) (intro : String) (lines : List String) :
    let typed := (l.handleAll false queue).loop.handleAll true lines
    let start := if intro = "" then [] else [Emission.intro intro]
    (l.run intro queue lines).escaped? = typed.escaped? ∧
      (l.run intro queue lines).loop = typed.loop ∧
      (typed.escaped? = none → shown (l.run intro queue lines).emissions =
        shown (start ++ (l.handleAll false queue).emissions) ++
          (shown typed.emissions ++ [.prompt typed.loop.prompt]) ++ [.farewell]) := by
  intro typed start
  simp only [run, hqueue]
  refine ⟨rfl, rfl, fun htyped => ?_⟩
  simp only [typed] at htyped
  simp only [htyped, Emission.shown_append, List.append_assoc, start, typed]
  rfl

/-- **Blank lines go unseen.** Insert blank lines anywhere into the lines of a session. The
session ends early at the same integer with too many digits, or it does not end early either.
Then it writes the same values in the same order and, the detailed log apart, the same text on
the error output, and it ends with the same heap and the same depth. All that it shows besides
is one more prompt for each blank line, with the text of the prompt that comes right after
it. -/
theorem blank_lines_unseen (limit : Nat) (promptStart intro : String)
    (queue lines spaced : List String) (h : Spaced lines spaced) :
    let l : ReadLoop := { interpreter := .fresh limit, promptStart }
    let run := l.run intro queue lines
    let run' := l.run intro queue spaced
    run'.escaped? = run.escaped? ∧
      (run.escaped? = none →
        run'.emissions.filterMap Emission.value? = run.emissions.filterMap Emission.value? ∧
        Emission.errorText false run'.emissions = Emission.errorText false run.emissions ∧
        run'.loop.interpreter.machine.heap = run.loop.interpreter.machine.heap ∧
        run'.loop.interpreter.depth = run.loop.interpreter.depth ∧
        ∃ n, spaced.length = lines.length + n ∧
          Reprompts n (shown run.emissions) (shown run'.emissions)) := by
  intro l run run'
  rcases l.handleAll_takes false queue with ⟨hqueue, htakes⟩ | hends
  · obtain ⟨hescaped, hloop, hshown⟩ := run_of_queue hqueue intro lines
    obtain ⟨hescaped', hloop', hshown'⟩ := run_of_queue hqueue intro spaced
    have hrested := htakes.rested (rested_fresh limit promptStart)
    obtain ⟨hsame, hrest⟩ := handleAll_spaced h hrested (.refl _)
    refine ⟨hescaped'.trans (hsame.trans hescaped.symm), fun hgoes => ?_⟩
    have htyped := hescaped.symm.trans hgoes
    obtain ⟨r, n, hr, hresumed, hlength, hes⟩ := hrest htyped
    have hruns : Reprompts n (shown run.emissions) (shown run'.emissions) := by
      rw [hshown htyped, hshown' (hsame.trans htyped)]
      exact (hes.append_left _).append_right _
    refine ⟨?_, ?_, ?_, ?_, n, hlength, hruns⟩
    · rw [← Emission.filterMap_value?_shown, hruns.values, Emission.filterMap_value?_shown]
    · rw [← Emission.errorText_shown, hruns.errorText, Emission.errorText_shown]
    · rw [hloop', hloop]
      exact congrArg (·.interpreter.machine.heap) hresumed
    · rw [hloop', hloop]
      exact (congrArg (·.interpreter.depth) hresumed).trans hr.depth
  · -- the queue ended the loop, and no line was taken
    obtain ⟨o, ho⟩ := hends.escaped
    have hrun (lines : List String) : (l.run intro queue lines).escaped? = some o := by
      simp only [ReadLoop.run, ho]
    refine ⟨(hrun spaced).trans (hrun lines).symm, fun hgoes => ?_⟩
    exact absurd ((hrun lines).symm.trans hgoes) (by simp)

/-- A line of blanks between two expressions, and an empty line inside the second one, which
fails. -/
theorem blank_lines_unseen_inside_list :
    let l : ReadLoop := { interpreter := .fresh 9, promptStart := "> " }
    let lines := ["(define x 1)", "(car", "x)"]
    let spaced := ["(define x 1)", "  ", "(car", "", "x)"]
    let run := l.run "" [] lines
    let run' := l.run "" [] spaced
    Spaced lines spaced ∧ run.escaped? = none ∧
      run'.loop.interpreter.machine.heap = run.loop.interpreter.machine.heap ∧
      Emission.errorText false run'.emissions =
        "[RUNTIME ERROR]: car applied to non-list 1\n" ∧
      Reprompts 2 (shown run.emissions) (shown run'.emissions) := by
  intro l lines spaced run run'
  have hspaced : Spaced lines spaced :=
    .line _ (.blank rfl (.line _ (.blank rfl (.line _ .nil))))
  have hl : l = { interpreter := .fresh 9, promptStart := "> " } := rfl
  have hlines : lines = ["(define x 1)", "(car", "x)"] := rfl
  have hcount : spaced.length = lines.length + 2 := rfl
  have hrun : run = l.run "" [] lines := rfl
  have hrun' : run' = l.run "" [] spaced := rfl
  -- only the kernel is to run the session
  clear_value run run' l lines spaced
  have hescaped : run.escaped? = none := by
    rw [hrun, hl, hlines]
    decide +kernel
  have herrors : Emission.errorText false run.emissions =
      "[RUNTIME ERROR]: car applied to non-list 1\n" := by
    rw [hrun, hl, hlines]
    decide +kernel
  have hrest := (blank_lines_unseen 9 "> " "" [] lines spaced hspaced).2
  rw [← hl, ← hrun, ← hrun'] at hrest
  obtain ⟨-, htext, hheap, -, n, hlength, hes⟩ := hrest hescaped
  obtain rfl : n = 2 := Nat.add_left_cancel (hlength.symm.trans hcount)
  exact ⟨hspaced, hescaped, hheap, htext.trans herrors, hes⟩

end ReadLoop

end SmallScheme
