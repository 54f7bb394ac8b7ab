import Mathlib.Data.Nat.Digits.Lemmas
import SmallScheme.Proofs.Placeholders
import SmallScheme.Proofs.ReaderStates
import SmallScheme.Proofs.Sessions

/-!
# The read loop takes every line

A line can be at fault in many ways: its words, its parentheses, any expression on it, the
texts of its values. The read loop reports errors and goes on, so it takes all its lines
in order, the queued ones and then the typed ones. It ends early in one case only, an
integer with too many digits.

* **`Interpreter.failed_of_feed`** — what an error leaves behind: an idle reader, and the
  heap at the moment of the error;
* **`Reader.Holds.literal_of_feed`**, **`Interpreter.isWritten_of_feed`** — an integer with
  too many digits is a literal of the line, or it was to be written;
* **`Steady.handle`**, **`Takes.steady`** — what holds between two lines, for one line and
  for all;
* **`handleAll_takes`**, **`run_takes`** — where the loop ends;
* **`run_survives_errors`** — all of it, for a whole session.
-/

namespace SmallScheme

/-! ## Integers with too many digits -/

theorem lt_length_digits {k n : Nat} (h : Nat.pow 10 k ≤ n) : k < (Nat.digits 10 n).length := by
  rw [Nat.lt_digits_length_iff (by decide), ← Nat.pow_eq]
  exact h

theorem Oversized.IsWritten.digits {o : Oversized} (h : o.IsWritten) :
    ∃ n large, o = .written n large ∧ digitLimit < (Nat.digits 10 n.natAbs).length := by
  cases o with
  | literal digits large => exact h.elim
  | written n large => exact ⟨n, large, rfl, lt_length_digits large⟩

/-- Where the texts of values end, an integer was to be written. -/
theorem Emission.isWritten_of_valueTexts {vs : List Datum} {o : Oversized}
    (h : (valueTexts vs).2 = some o) : o.IsWritten := by
  induction vs with
  | nil => cases h
  | cons v vs ih =>
    rw [valueTexts] at h
    split at h
    · exact ih h
    · split at h
      · next htext =>
        cases h
        exact v.isWritten_of_render htext
      · exact ih h

/-- What is in the buffer has tokens, so a literal with too many digits is on the new line. -/
theorem Reader.Holds.literal_of_feed {r : Reader} {b : Builder} (hr : r.Holds b) {line : String}
    {o : Oversized} (h : (r.feed line).outcome = .error (.oversized o)) :
    ∃ digits, .word digits ∈ lexemes line.toList ∧ Text.isDigits digits ∧
      ∃ large : digitLimit < digits.length, o = .literal digits.length large := by
  have htokens := tokenize_of_feed h
  rw [tokenize_eq_mapM, lexemes_join (Builder.even_count_of_read hr.read),
    mapM_eq_error_iff] at htokens
  obtain ⟨before, l, after, hlexemes, -, hl⟩ := htokens
  obtain ⟨digits, rfl⟩ := Token.word_of_oversized hl
  have hmem : Lexeme.word digits ∈ lexemes r.buffer.toList ++ lexemes line.toList := by
    rw [hlexemes]
    simp
  obtain ⟨ts, hts, -⟩ := Builder.read_eq_ok_iff.mp hr.read
  have hline : Lexeme.word digits ∈ lexemes line.toList := by
    refine (List.mem_append.mp hmem).resolve_left fun hbuffer => ?_
    have hok := List.mem_map_of_mem (f := Token.ofLexeme) hbuffer
    rw [mapM_eq_ok_iff.mp hts, hl] at hok
    simp at hok
  rcases Token.ofWord_eq_error hl with heq | ⟨hdigits, large, heq⟩
  · cases heq
  · simp only [String.toList_ofList] at hdigits large heq
    cases heq
    exact ⟨digits, hline, hdigits, large, rfl⟩

/-! ## One line -/

-- the reader is followed by its lemmas: unfolding would run the scanner
section Lines

attribute [local irreducible] Reader.feed

namespace Interpreter

open Heap

variable {i k : Interpreter} {line : String}

theorem reader_feed (i : Interpreter) (line : String) :
    (i.feed line).2.reader = (i.reader.feed line).reader := by
  cases houtcome : (i.reader.feed line).outcome with
  | error f =>
    rw [feed_of_unread houtcome]
    rfl
  | ok progress =>
    cases progress with
    | incomplete =>
      rw [feed_of_incomplete houtcome]
      rfl
    | complete exprs =>
      rw [feed_of_complete houtcome rfl]
      exact reader_evaluateAll (i.ready line) exprs

/-- A line fails while it is read, or while its expressions are evaluated. -/
theorem feed_eq_error {f : Fault} (h : i.feed line = (.error f, k)) :
    (i.reader.feed line).outcome = .error f ∧ k = i.ready line ∨
      ∃ exprs, (i.reader.feed line).outcome = .ok (.complete exprs) ∧
        (i.ready line).evaluateAll exprs = (.error f, k) := by
  cases houtcome : (i.reader.feed line).outcome with
  | error g =>
    rw [feed_of_unread houtcome] at h
    cases h
    exact .inl ⟨rfl, rfl⟩
  | ok progress =>
    cases progress with
    | incomplete =>
      rw [feed_of_incomplete houtcome] at h
      cases h
    | complete exprs =>
      rcases hrun : (i.ready line).evaluateAll exprs with ⟨g | vs, k'⟩
      · rw [feed_of_complete houtcome hrun] at h
        cases h
        exact .inr ⟨exprs, rfl, hrun⟩
      · rw [feed_of_complete houtcome hrun] at h
        cases h

/-- What the error `e` on a line makes of an interpreter: the reader is idle, no name lost its
value, and the heap is the one at the error. Either the line could not be read, or the
expressions before the one that failed have their values, and what that one did is kept. -/
structure Failed (i : Interpreter) (line : String) (e : Error) (after : Interpreter) : Prop where
  buffer : after.reader.buffer = ""
  depth : after.reader.depth = 0
  settles : i.machine.heap.Settles after.machine.heap
  kept :
    (i.reader.feed line).outcome = .error (.error e) ∧ after.machine.heap = i.machine.heap ∨
    ∃ before expr rest vs j k,
      (i.reader.feed line).outcome = .ok (.complete (before ++ expr :: rest)) ∧
      i.evaluateAll before = (.ok vs, j) ∧ j.evaluate expr = (.error (.error e), k) ∧
      i.machine.heap.Settles j.machine.heap ∧ j.machine.heap.Settles k.machine.heap ∧
      after.machine.heap = k.machine.heap

theorem failed_of_feed {e : Error} (hi : i.machine.heap.Holds PlaceholderOrProper)
    (h : i.feed line = (.error (.error e), k)) : i.Failed line e k := by
  have hreader := reader_feed i line
  rw [h] at hreader
  dsimp only at hreader
  rcases feed_eq_error h with ⟨houtcome, rfl⟩ | ⟨exprs, houtcome, hrun⟩
  · rw [(Reader.feed_of_error houtcome).2] at hreader
    exact ⟨by rw [hreader], by rw [hreader], .refl _, .inl ⟨houtcome, rfl⟩⟩
  · rw [Reader.feed_of_complete houtcome] at hreader
    -- reading recorded events only, so the batch runs from `i` as well
    have halike : i.Alike (i.ready line) := ⟨rfl, rfl⟩
    obtain ⟨k', hrun', hk'⟩ := exists_alike halike hrun
    obtain ⟨before, expr, rest, vs, j, rfl, hbefore, hexpr⟩ := exists_failing hrun'
    have hexprs := Reader.isExpression_of_feed houtcome
    rw [List.forall_mem_append, List.forall_mem_cons] at hexprs
    -- names keep their values up to the failing expression, and in it
    obtain ⟨hsettles, hj⟩ := ((placeholderInvariant i.machine.heap).reached_evaluateAll
      ⟨.refl _, hi⟩ hexprs.1).keeps
    rw [hbefore] at hsettles hj
    obtain ⟨hsettles', -⟩ := ((placeholderInvariant j.machine.heap).reached_evaluate
      ⟨.refl _, hj⟩ hexprs.2.1).keeps
    rw [hexpr] at hsettles'
    dsimp only at hsettles hsettles'
    refine ⟨by rw [hreader], by rw [hreader], ?_, .inr ⟨before, expr, rest, vs, j, k', houtcome,
      hbefore, hexpr, hsettles, hsettles', hk'.heap.symm⟩⟩
    rw [← hk'.heap]
    exact hsettles.trans hsettles'

/-- An integer with too many digits that stops the evaluation of a line was to be written. -/
theorem isWritten_of_feed {o : Oversized} (h : i.feed line = (.error (.oversized o), k))
    (hread : (i.reader.feed line).outcome ≠ .error (.oversized o)) : o.IsWritten := by
  rcases feed_eq_error h with ⟨houtcome, -⟩ | ⟨exprs, -, hrun⟩
  · exact absurd houtcome hread
  · obtain ⟨before, expr, rest, vs, j, -, -, hexpr⟩ := exists_failing hrun
    exact isWritten_of_evaluate hexpr

/-! ### Steps -/

/-- Only the trace is taken out of the interpreter. -/
theorem interpreter_step (i : Interpreter) (line : String) :
    (i.step line).interpreter = (i.feed line).2.takeTrace.2 := by
  unfold step
  rcases i.feed line with ⟨fault | progress, k⟩
  · cases fault <;> rfl
  · cases progress with
    | incomplete => rfl
    | complete vs => rfl

/-- Reports are about the error that a line ended in. -/
theorem feed_of_report {kind : ErrorKind} {message : String}
    (h : .report kind message ∈ (i.step line).emissions) :
    ∃ e k, i.feed line = (.error (.error e), k) ∧ kind = e.kind ∧ message = e.message := by
  rcases hfeed : i.feed line with ⟨fault | progress, k⟩ <;> simp only [step, hfeed] at h
  · cases fault with
    | error e =>
      refine ⟨e, k, rfl, ?_⟩
      simpa using h
    | oversized o => simp at h
  · cases progress with
    | incomplete => simp at h
    | complete vs => simp at h

theorem feed_of_oversized {o : Oversized} (h : (i.step line).fault? = some (.oversized o)) :
    (∃ k, i.feed line = (.error (.oversized o), k)) ∨ o.IsWritten := by
  rcases hfeed : i.feed line with ⟨fault | progress, k⟩ <;> simp only [step, hfeed] at h
  · cases fault with
    | error e => simp at h
    | oversized o' =>
      cases h
      exact .inl ⟨k, rfl⟩
  · cases progress with
    | incomplete => simp at h
    | complete vs =>
      right
      simp only [Option.map_eq_some_iff, Fault.oversized.injEq, exists_eq_right] at h
      exact Emission.isWritten_of_valueTexts h

end Interpreter

namespace ReadLoop

open Heap

variable {l : ReadLoop} {line : String}

/-- A line counts, or nothing happens. -/
theorem handle_cases (l : ReadLoop) (line : String) :
    l.handle line = l.submit (counted line) ∨
      l.handle line = { emissions := [], loop := l, escaped? := none } := by
  unfold handle counted
  by_cases hblank : isBlankLine line
  · rw [if_pos hblank, if_pos hblank]
    by_cases hpending : l.interpreter.reader.pending
    · rw [if_pos hpending]
      exact .inl rfl
    · rw [if_neg hpending]
      exact .inr rfl
  · rw [if_neg hblank, if_neg hblank]
    exact .inl rfl

theorem escaped_submit {o : Oversized} :
    (l.submit line).escaped? = some o ↔ (l.interpreter.step line).fault? = some (.oversized o) := by
  rcases hfault : (l.interpreter.step line).fault? with _ | (e | o')
  · simp [submit, hfault]
  · simp [submit, hfault]
  · simp [submit, hfault]

/-- What holds between two lines. -/
structure Steady (l : ReadLoop) : Prop where
  reader : ∃ b, l.interpreter.reader.Holds b
  heap : l.interpreter.machine.heap.Holds PlaceholderOrProper
  prompt : l.prompt = promptText l.promptStart l.interpreter.depth

theorem steady_fresh (limit : Nat) (promptStart : String) :
    Steady { interpreter := .fresh limit, promptStart } :=
  ⟨⟨{}, .fresh⟩, holds_initial _, rfl⟩

/-- A line that does not end the loop is followed by a prompt with the depth after it. -/
theorem Steady.submit (h : l.Steady) (hgoes : (l.submit line).escaped? = none) :
    (l.submit line).loop.Steady := by
  have hinterpreter : (l.submit line).loop.interpreter = (l.interpreter.feed line).2.takeTrace.2 :=
    l.interpreter.interpreter_step line
  obtain ⟨b, hb⟩ := h.reader
  refine ⟨?_, ?_, ?_⟩
  · have hread : ∀ o, (l.interpreter.reader.feed line).outcome ≠ .error (.oversized o) := by
      intro o ho
      have hescaped : (l.submit line).escaped? = some o := by
        rw [escaped_submit]
        simp only [Interpreter.step, Interpreter.feed_of_unread ho]
      rw [hgoes] at hescaped
      cases hescaped
    rw [hinterpreter]
    show ∃ b', (l.interpreter.feed line).2.reader.Holds b'
    rw [Interpreter.reader_feed]
    exact hb.feed_of_not_oversized hread
  · rw [hinterpreter]
    exact ((placeholderInvariant l.interpreter.machine.heap).reached_feed
      ⟨.refl _, h.heap⟩ line).keeps.2
  · unfold ReadLoop.submit at hgoes ⊢
    dsimp only at hgoes ⊢
    rw [hgoes]

theorem Steady.handle (h : l.Steady) (hgoes : (l.handle line).escaped? = none) :
    (l.handle line).loop.Steady := by
  rcases l.handle_cases line with heq | heq
  · rw [heq] at hgoes ⊢
    exact h.submit hgoes
  · rw [heq]
    exact h

theorem promptStart_handle (l : ReadLoop) (line : String) :
    (l.handle line).loop.promptStart = l.promptStart := by
  rcases l.handle_cases line with heq | heq
  · rw [heq]
    rfl
  · rw [heq]

/-- The interpreter after a line on which an error was reported. -/
theorem Steady.failed_of_report (h : l.Steady) {kind : ErrorKind} {message : String}
    (hreport : .report kind message ∈ (l.handle line).emissions) :
    ∃ e, kind = e.kind ∧ message = e.message ∧
      l.interpreter.Failed (counted line) e (l.handle line).loop.interpreter := by
  rcases l.handle_cases line with heq | heq
  · rw [heq] at hreport ⊢
    obtain ⟨e, k, hfeed, hkind, hmessage⟩ := Interpreter.feed_of_report hreport
    have hfailed := Interpreter.failed_of_feed h.heap hfeed
    have hinterpreter := l.interpreter.interpreter_step (counted line)
    rw [hfeed] at hinterpreter
    show ∃ e, _ ∧ _ ∧ Interpreter.Failed _ _ e (l.interpreter.step (counted line)).interpreter
    rw [hinterpreter]
    exact ⟨e, hkind, hmessage, hfailed.buffer, hfailed.depth, hfailed.settles, hfailed.kept⟩
  · rw [heq] at hreport
    exact absurd hreport List.not_mem_nil

/-- The integer with too many digits that ended the loop. -/
theorem Steady.oversized_of_escaped (h : l.Steady) {o : Oversized}
    (hescaped : (l.handle line).escaped? = some o) :
    (∃ digits, .word digits ∈ lexemes line.toList ∧ Text.isDigits digits ∧
      ∃ large : digitLimit < digits.length, o = .literal digits.length large) ∨
    ∃ n large, o = .written n large ∧ digitLimit < (Nat.digits 10 n.natAbs).length := by
  rcases l.handle_cases line with heq | heq
  · rw [heq, escaped_submit] at hescaped
    obtain ⟨b, hb⟩ := h.reader
    rcases Interpreter.feed_of_oversized hescaped with ⟨k, hfeed⟩ | hwritten
    · by_cases hread : (l.interpreter.reader.feed (counted line)).outcome = .error (.oversized o)
      · rw [← lexemes_counted]
        exact .inl (hb.literal_of_feed hread)
      · exact .inr (Interpreter.isWritten_of_feed hfeed hread).digits
    · exact .inr hwritten.digits
  · rw [heq] at hescaped
    cases hescaped

/-! ## All lines -/

/-- A line for the loop: one of the queue, or one that is typed after a prompt. -/
inductive Input where
  | queued (text : String)
  | typed (text : String)

namespace Input

/-- The line itself. -/
def text : Input → String
  | .queued text | .typed text => text

/-- What stands before the answer to it. -/
def prompt (l : ReadLoop) : Input → List Emission
  | .queued _ => []
  | .typed _ => [.prompt l.prompt]

/-- A line that is typed if `prompted`. -/
def ofLine (prompted : Bool) (line : String) : Input :=
  if prompted then .typed line else .queued line

theorem text_ofLine (prompted : Bool) (line : String) : (ofLine prompted line).text = line := by
  cases prompted <;> rfl

theorem prompt_ofLine (prompted : Bool) (line : String) (l : ReadLoop) :
    (ofLine prompted line).prompt l = if prompted then [.prompt l.prompt] else [] := by
  cases prompted <;> rfl

end Input

/-- The loop takes all inputs, one after the other and each once, and none of them ends it;
what it writes, and where it stands afterwards. -/
inductive Takes : ReadLoop → List Input → List Emission → ReadLoop → Prop
  | nil (l : ReadLoop) : Takes l [] [] l
  | cons {l l' : ReadLoop} {input : Input} {inputs : List Input} {es : List Emission} :
      (l.handle input.text).escaped? = none → Takes (l.handle input.text).loop inputs es l' →
      Takes l (input :: inputs) (input.prompt l ++ (l.handle input.text).emissions ++ es) l'

/-- The loop takes inputs up to the first that ends it. -/
def EndsEarly (l : ReadLoop) (inputs : List Input) (t : Transcript) : Prop :=
  ∃ before last after es l' o, inputs = before ++ last :: after ∧ l.Takes before es l' ∧
    (l'.handle last.text).escaped? = some o ∧
    t = { l'.handle last.text with
      emissions := es ++ (last.prompt l' ++ (l'.handle last.text).emissions) }

theorem takes_singleton (l : ReadLoop) (input : Input)
    (hgoes : (l.handle input.text).escaped? = none) :
    l.Takes [input] (input.prompt l ++ (l.handle input.text).emissions)
      (l.handle input.text).loop := by
  rw [← List.append_nil (input.prompt l ++ (l.handle input.text).emissions)]
  exact .cons hgoes (.nil _)

theorem Takes.append {l l' l'' : ReadLoop} {as bs : List Input} {es fs : List Emission}
    (has : l.Takes as es l') (hbs : l'.Takes bs fs l'') : l.Takes (as ++ bs) (es ++ fs) l'' := by
  induction has with
  | nil => exact hbs
  | cons hgoes _ ih =>
    rw [List.cons_append, List.append_assoc]
    exact .cons hgoes (ih hbs)

theorem Takes.endsEarly {l l' : ReadLoop} {as bs : List Input} {es : List Emission}
    {t : Transcript} (has : l.Takes as es l') (hbs : l'.EndsEarly bs t) :
    l.EndsEarly (as ++ bs) { t with emissions := es ++ t.emissions } := by
  obtain ⟨before, last, after, fs, l'', o, rfl, hbefore, hescaped, rfl⟩ := hbs
  refine ⟨as ++ before, last, after, es ++ fs, l'', o, ?_, has.append hbefore, hescaped, ?_⟩
  · rw [List.append_assoc]
  · rw [List.append_assoc]

theorem EndsEarly.escaped {l : ReadLoop} {inputs : List Input} {t : Transcript}
    (h : l.EndsEarly inputs t) : ∃ o, t.escaped? = some o := by
  obtain ⟨_, _, _, _, _, o, _, _, hescaped, rfl⟩ := h
  exact ⟨o, hescaped⟩

theorem EndsEarly.append {l : ReadLoop} {as : List Input} {t : Transcript}
    (h : l.EndsEarly as t) (bs : List Input) : l.EndsEarly (as ++ bs) t := by
  obtain ⟨before, last, after, es, l', o, rfl, hends⟩ := h
  refine ⟨before, last, after ++ bs, es, l', o, ?_, hends⟩
  rw [List.append_assoc, List.cons_append]

/-- What holds between two lines holds after any of them. -/
theorem Takes.steady {l l' : ReadLoop} {inputs : List Input} {es : List Emission}
    (ht : l.Takes inputs es l') (h : l.Steady) :
    l'.Steady ∧ l'.promptStart = l.promptStart := by
  induction ht with
  | nil => exact ⟨h, rfl⟩
  | cons hgoes _ ih =>
    obtain ⟨hsteady, hstart⟩ := ih (h.handle hgoes)
    exact ⟨hsteady, hstart.trans (promptStart_handle _ _)⟩

/-- Lines of one sort are all taken, unless one of them ends the loop. -/
theorem handleAll_takes (prompted : Bool) (l : ReadLoop) (lines : List String) :
    let t := l.handleAll prompted lines
    t.escaped? = none ∧ l.Takes (lines.map (.ofLine prompted)) t.emissions t.loop ∨
      l.EndsEarly (lines.map (.ofLine prompted)) t := by
  induction lines generalizing l with
  | nil => exact .inl ⟨rfl, .nil l⟩
  | cons line lines ih =>
    intro t
    have htext := Input.text_ofLine prompted line
    have hprompt := Input.prompt_ofLine prompted line l
    cases hescaped : (l.handle line).escaped? with
    | some o =>
      right
      refine ⟨[], .ofLine prompted line, lines.map (.ofLine prompted), [], l, o, rfl, .nil l,
        ?_, ?_⟩
      · rw [htext, hescaped]
      · rw [htext, hprompt]
        simp only [t, handleAll, hescaped, List.nil_append]
    | none =>
      have hgoes : (l.handle (Input.ofLine prompted line).text).escaped? = none := by
        rw [htext, hescaped]
      have hfirst := takes_singleton l (.ofLine prompted line) hgoes
      rw [htext, hprompt] at hfirst
      have ht : t = { (l.handle line).loop.handleAll prompted lines with
          emissions := (if prompted then [.prompt l.prompt] else []) ++ (l.handle line).emissions ++
            ((l.handle line).loop.handleAll prompted lines).emissions } := by
        simp only [t, handleAll, hescaped]
      rw [ht]
      rcases ih (l.handle line).loop with ⟨hnone, htakes⟩ | hends
      · exact .inl ⟨hnone, hfirst.append htakes⟩
      · exact .inr (hfirst.endsEarly hends)

/-- The queue and then the input are taken, up to the end of the input, unless a line ends the
loop. -/
theorem run_takes (l : ReadLoop) (intro : String) (queue lines : List String) :
    let run := l.run intro queue lines
    let inputs := queue.map Input.queued ++ lines.map Input.typed
    let start := if intro = "" then [] else [Emission.intro intro]
    (∃ es, l.Takes inputs es run.loop ∧ run.escaped? = none ∧
      run.emissions = start ++ es ++ [.prompt run.loop.prompt, .farewell]) ∨
    ∃ t, l.EndsEarly inputs t ∧ run = { t with emissions := start ++ t.emissions } := by
  intro run inputs start
  let queued := l.handleAll false queue
  let typed := queued.loop.handleAll true lines
  rcases l.handleAll_takes false queue with ⟨hqueued, hqueue⟩ | hends
  · rcases queued.loop.handleAll_takes true lines with ⟨htyped, hlines⟩ | hends
    · left
      have hrun : run = { typed with
          emissions := start ++ queued.emissions ++ typed.emissions ++
            [.prompt typed.loop.prompt, .farewell] } := by
        simp only [run, start, queued, typed, ReadLoop.run, hqueued, htyped]
      rw [hrun]
      refine ⟨queued.emissions ++ typed.emissions, hqueue.append hlines, htyped, ?_⟩
      simp only [List.append_assoc]
    · right
      obtain ⟨o, htyped⟩ := hends.escaped
      refine ⟨_, hqueue.endsEarly hends, ?_⟩
      simp only [run, start, ReadLoop.run, hqueued, htyped, List.append_nil, List.append_assoc,
        queued]
  · right
    obtain ⟨o, hqueued⟩ := hends.escaped
    refine ⟨queued, hends.append (lines.map .typed), ?_⟩
    simp only [run, start, queued, ReadLoop.run, hqueued]

end ReadLoop

end Lines

/-! ## Sessions -/

namespace ReadLoop

/-- **The read loop survives every error.** Whatever is in the queue and in the input, the loop
takes each queued line and then each line of the input, once and in order, and stops at the
end of the input; or it takes lines up to one that ends it. On that one there is a literal
with too many digits, or an integer with too many digits was to be written.

After each line that it takes, the prompt shows the depth. After each line on which it
reports an error, the reader is idle, and the heap is the one at the error. -/
theorem run_survives_errors (limit : Nat) (promptStart intro : String) (queue : List String)
    (raw : Bool) (input : String) :
    let l : ReadLoop := { interpreter := .fresh limit, promptStart }
    let inputs := queue.map Input.queued ++ (inputLines raw input).map Input.typed
    let run := l.run intro queue (inputLines raw input)
    let start := if intro = "" then [] else [Emission.intro intro]
    ((∃ es, l.Takes inputs es run.loop ∧ run.escaped? = none ∧
        run.emissions = start ++ es ++ [.prompt run.loop.prompt, .farewell]) ∨
      ∃ t, l.EndsEarly inputs t ∧ run = { t with emissions := start ++ t.emissions }) ∧
    ∀ before es l', l.Takes before es l' → ∀ line,
      let answer := l'.handle line
      (answer.escaped? = none →
        answer.loop.prompt = promptStart ++ toString answer.loop.interpreter.depth ++ " ") ∧
      (∀ kind message, .report kind message ∈ answer.emissions →
        ∃ e, kind = e.kind ∧ message = e.message ∧
          l'.interpreter.Failed (counted line) e answer.loop.interpreter) ∧
      ∀ o, answer.escaped? = some o →
        (∃ digits, .word digits ∈ lexemes line.toList ∧ Text.isDigits digits ∧
          ∃ large : digitLimit < digits.length, o = .literal digits.length large) ∨
        ∃ n large, o = .written n large ∧ digitLimit < (Nat.digits 10 n.natAbs).length := by
  intro l inputs run start
  refine ⟨l.run_takes intro queue (inputLines raw input), ?_⟩
  intro before es l' htakes line answer
  obtain ⟨hsteady, hstart⟩ := htakes.steady (steady_fresh limit promptStart)
  refine ⟨?_, fun _ _ => hsteady.failed_of_report, fun _ => hsteady.oversized_of_escaped⟩
  intro hgoes
  have hpromptStart : answer.loop.promptStart = promptStart :=
    (promptStart_handle l' line).trans hstart
  rw [(hsteady.handle hgoes).prompt, hpromptStart]
  rfl

/-- A definition in the queue, a line with an error, and a list that stays open. -/
theorem run_survives_errors_failing_line :
    let l : ReadLoop := { interpreter := .fresh 9, promptStart := "> " }
    let run := l.run "" ["(define x 1)"] (inputLines false "(car y)\n(cons x\n")
    run.escaped? = none ∧ (run.loop.interpreter.machine.heap.bindings globalFrame).has "x" ∧
      ∃ es, l.Takes [.queued "(define x 1)", .typed "(car y)", .typed "(cons x"] es run.loop ∧
        run.emissions = es ++ [.prompt "> 1 ", .farewell] := by
  intro l run
  have hlines : inputLines false "(car y)\n(cons x\n" = ["(car y)", "(cons x"] := rfl
  have hl : l = { interpreter := .fresh 9, promptStart := "> " } := rfl
  have hrun : run = l.run "" ["(define x 1)"] ["(car y)", "(cons x"] := by rw [← hlines]
  -- only the kernel is to run the session
  clear_value run l
  have hescaped : run.escaped? = none := by
    rw [hrun, hl]
    decide +kernel
  have hprompt : run.loop.prompt = "> 1 " := by
    rw [hrun, hl]
    decide +kernel
  have hbound : (run.loop.interpreter.machine.heap.bindings globalFrame).has "x" := by
    rw [hrun, hl]
    decide +kernel
  have hends := (run_survives_errors 9 "> " "" ["(define x 1)"] false "(car y)\n(cons x\n").1
  rw [hlines, ← hl, ← hrun] at hends
  rcases hends with ⟨es, htakes, -, hemissions⟩ | ⟨t, hends, ht⟩
  · rw [if_pos rfl, List.nil_append, hprompt] at hemissions
    exact ⟨hescaped, hbound, es, htakes, hemissions⟩
  · obtain ⟨o, ho⟩ := hends.escaped
    rw [ht] at hescaped
    exact absurd (hescaped.symm.trans ho) (by simp)

end ReadLoop

end SmallScheme
