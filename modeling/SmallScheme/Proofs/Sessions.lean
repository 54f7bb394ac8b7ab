import SmallScheme.Proofs.Batches
import SmallScheme.Proofs.LineReading
import SmallScheme.Proofs.TextLines

/-!
# A text at once, as a file, and typed in

A complete text can be evaluated at once, run as a file line by line, or typed into the
read loop. `runs_agree` says that all three come to the same, and what is lost of a file
when an expression fails: the values of the batch that the expression is in.

A step of a session writes the values of the batch that its line completes
(`Interpreter.step_writes`) or reports the error that the batch ends in
(`Interpreter.step_reports`). Hence a run of lines writes the values of all batches
(`Script.runLines_writes`, `ReadLoop.handleAll_writes`). The batches make up the
expressions of the text (`Reader.batches_of_parse`), however it is cut into lines.
-/

namespace SmallScheme

/-! ## What is written -/

namespace Emission

/-- Only a verbose session writes it. -/
def isEvent : Emission → Bool
  | .event _ => true
  | _ => false

/-- The emissions that every session writes. -/
def shown (es : List Emission) : List Emission :=
  es.filter (!·.isEvent)

/-- The text of a value. -/
def value? : Emission → Option String
  | .value text => some text
  | _ => none

/-- What is written around the values. -/
def framing (es : List Emission) : List Emission :=
  (shown es).filter (·.value?.isNone)

/-- The lines that values are written on. `nil` is not written. -/
def valueLines (vs : List Datum) : Except Oversized (List String) :=
  (vs.filter (!·.isNil)).mapM Datum.render

@[simp] theorem shown_append (as bs : List Emission) : shown (as ++ bs) = shown as ++ shown bs :=
  List.filter_append ..

@[simp] theorem framing_append (as bs : List Emission) :
    framing (as ++ bs) = framing as ++ framing bs := by
  simp [framing]

@[simp] theorem shown_events (events : List Event) : shown (events.map .event) = [] := by
  simp [shown, isEvent]

@[simp] theorem shown_values (texts : List String) :
    shown (texts.map .value) = texts.map .value := by
  simp [shown, isEvent]

/-- A text that events add nothing to. -/
theorem join_map_shown {f : Emission → String} (hf : ∀ e, f (.event e) = "")
    (es : List Emission) : String.join ((shown es).map f) = String.join (es.map f) := by
  induction es with
  | nil => rfl
  | cons e es ih =>
    rw [List.map_cons, String.join_cons, ← ih]
    cases e with
    | event e => simp [shown, isEvent, hf]
    | _ => simp [shown, isEvent]

theorem outputText_shown (es : List Emission) : outputText (shown es) = outputText es :=
  join_map_shown (fun _ => rfl) es

theorem errorText_shown (es : List Emission) :
    errorText false (shown es) = errorText false es :=
  join_map_shown (fun _ => rfl) es

theorem filterMap_value?_shown (es : List Emission) :
    (shown es).filterMap value? = es.filterMap value? := by
  rw [shown, List.filterMap_filter]
  congr 1
  funext e
  cases e <;> rfl

theorem outputText_append (as bs : List Emission) :
    outputText (as ++ bs) = outputText as ++ outputText bs := by
  simp [outputText]

theorem errorText_append (verbose : Bool) (as bs : List Emission) :
    errorText verbose (as ++ bs) = errorText verbose as ++ errorText verbose bs := by
  simp [errorText]

theorem outputText_values (texts : List String) :
    outputText (texts.map .value) = String.join (texts.map (· ++ "\n")) := by
  rw [outputText, List.map_map]
  rfl

theorem errorText_values (verbose : Bool) (texts : List String) :
    errorText verbose (texts.map .value) = "" := by
  induction texts with
  | nil => rfl
  | cons text texts ih =>
    unfold errorText at ih ⊢
    rw [List.map_cons, List.map_cons, String.join_cons, ih]
    rfl

theorem valueLines_append_eq_ok_iff {us ws : List Datum} {texts : List String} :
    valueLines (us ++ ws) = .ok texts ↔
      ∃ as bs, valueLines us = .ok as ∧ valueLines ws = .ok bs ∧ texts = as ++ bs := by
  simp only [valueLines, mapM_eq_ok_iff, List.filter_append, List.map_append]
  constructor
  · intro h
    obtain ⟨as, bs, rfl, has, hbs⟩ := List.map_eq_append_iff.mp h.symm
    exact ⟨as, bs, has.symm, hbs.symm, rfl⟩
  · rintro ⟨as, bs, has, hbs, rfl⟩
    rw [has, hbs, List.map_append]

theorem valueTexts_of_valueLines {vs : List Datum} {texts : List String}
    (h : valueLines vs = .ok texts) : valueTexts vs = (texts, none) := by
  induction vs generalizing texts with
  | nil =>
    cases h
    rfl
  | cons v vs ih =>
    rw [valueTexts]
    cases hnil : v.isNil with
    | true =>
      refine ih ?_
      simpa [valueLines, hnil] using h
    | false =>
      rw [valueLines, List.filter_cons_of_pos (by simp [hnil]), mapM_cons_eq_ok_iff] at h
      obtain ⟨text, rest, htext, hrest, rfl⟩ := h
      simp [htext, ih hrest]

end Emission

/-! ## One line -/

theorem Reader.feed_empty :
    ({} : Reader).feed "" = { outcome := .ok (.complete []), reader := {}, tokens? := some [] } :=
  rfl

-- a line is read and stepped through by these lemmas alone: unfolding would run the scanner
section Lines

attribute [local irreducible] Reader.feed

/-- The step goes on after writing values; how it leaves the interpreter. -/
structure Step.Writes (s : Step) (texts : List String) (k : Interpreter) (r : Reader) : Prop where
  fault : s.fault? = none
  shown : Emission.shown s.emissions = texts.map .value
  alike : s.interpreter.Alike k
  reader : s.interpreter.reader = r

/-- The step ends in an error after writing values. -/
structure Step.Reports (s : Step) (texts : List String) (e : Error) (k : Interpreter) : Prop where
  fault : s.fault? = some (.error e)
  shown : Emission.shown s.emissions = texts.map .value ++ [.report e.kind e.message]
  alike : s.interpreter.Alike k

namespace Interpreter

variable {i j k : Interpreter} {line : String} {vs : List Datum} {texts : List String} {e : Error}

/-- The interpreter once a line has been read and nothing of it evaluated. -/
def ready (i : Interpreter) (line : String) : Interpreter :=
  { i with reader := (i.reader.feed line).reader }.record (readingEvents (i.reader.feed line))

theorem Alike.ready (h : i.Alike j) (line : String) : (i.ready line).Alike j :=
  ⟨h.heap, h.depthLimit⟩

theorem feed_of_unread {f : Fault} (h : (i.reader.feed line).outcome = .error f) :
    i.feed line = (.error f, i.ready line) := by
  simp only [feed, h]
  rfl

theorem feed_of_incomplete (h : (i.reader.feed line).outcome = .ok .incomplete) :
    i.feed line = (.ok .incomplete, i.ready line) := by
  simp only [feed, h]
  rfl

theorem feed_of_complete {exprs : List Datum} {o : Except Fault (List Datum)}
    (h : (i.reader.feed line).outcome = .ok (.complete exprs))
    (hrun : (i.ready line).evaluateAll exprs = (o, k)) : i.feed line = (o.map .complete, k) := by
  unfold ready at hrun
  simp only [feed, h, hrun]
  cases o <;> rfl

/-- What feeding an accepted line comes to is what its batch does. -/
theorem feed_of_batch (h : i.Alike j) (hok : (i.reader.feed line).outcome.isOk)
    {o : Except Fault (List Datum)}
    (hbatch : j.evaluateAll (i.reader.feed line).exprs = (o, k)) :
    ∃ k', k'.Alike k ∧ k'.reader = (i.reader.feed line).reader ∧
      (i.feed line = (o.map .complete, k') ∨
        o = .ok [] ∧ i.feed line = (.ok .incomplete, k')) := by
  unfold Feed.exprs at hbatch
  obtain ⟨progress, hprogress⟩ := exists_of_isOk hok
  rw [hprogress] at hbatch
  cases progress with
  | incomplete =>
    cases hbatch
    exact ⟨i.ready line, h.ready line, rfl, .inr ⟨rfl, feed_of_incomplete hprogress⟩⟩
  | complete exprs =>
    obtain ⟨k', hk', halike⟩ := exists_alike (h.ready line) hbatch
    have hreader := reader_evaluateAll (i.ready line) exprs
    rw [hk'] at hreader
    exact ⟨k', halike, hreader, .inl (feed_of_complete hprogress hk')⟩

theorem step_writes (h : i.Alike j) (hok : (i.reader.feed line).outcome.isOk)
    (hvs : j.evaluateAll (i.reader.feed line).exprs = (.ok vs, k))
    (htexts : Emission.valueLines vs = .ok texts) :
    (i.step line).Writes texts k (i.reader.feed line).reader := by
  obtain ⟨k', halike, hreader, hfeed | ⟨hnone, hfeed⟩⟩ := feed_of_batch h hok hvs
  · have hvalues := Emission.valueTexts_of_valueLines htexts
    constructor <;> simp only [step, hfeed, Except.map, hvalues, takeTrace]
    · rfl
    · simp
    · exact ⟨halike.heap, halike.depthLimit⟩
    · exact hreader
  · cases hnone
    cases htexts
    constructor <;> simp only [step, hfeed, takeTrace]
    · simp
    · exact ⟨halike.heap, halike.depthLimit⟩
    · exact hreader

theorem step_reports (h : i.Alike j) (hok : (i.reader.feed line).outcome.isOk)
    (herror : j.evaluateAll (i.reader.feed line).exprs = (.error (.error e), k)) :
    (i.step line).Reports [] e k := by
  obtain ⟨k', halike, -, hfeed | ⟨hnone, -⟩⟩ := feed_of_batch h hok herror
  · constructor <;> simp only [step, hfeed, Except.map, takeTrace]
    · rw [Emission.shown_append, Emission.shown_events]
      rfl
    · exact ⟨halike.heap, halike.depthLimit⟩
  · cases hnone

end Interpreter

attribute [local irreducible] Interpreter.step

/-! ## The lines of a file -/

namespace Reader

theorem feeds_append (r : Reader) (as bs : List String) :
    r.feeds (as ++ bs) = r.feeds as ++ (r.afterLines as).feeds bs := by
  induction as generalizing r with
  | nil => rfl
  | cons line as ih =>
    rw [List.cons_append, feeds, ih]
    rfl

/-- If the batches of several lines fail, the batch of one of them does. -/
theorem exists_failing_line {r : Reader} {lines : List String} {j k : Interpreter} {f : Fault}
    (h : j.evaluateAll ((r.feeds lines).flatMap Feed.exprs) = (.error f, k)) :
    ∃ earlier line later vs mid, lines = earlier ++ line :: later ∧
      j.evaluateAll ((r.feeds earlier).flatMap Feed.exprs) = (.ok vs, mid) ∧
      mid.evaluateAll ((r.afterLines earlier).feed line).exprs = (.error f, k) := by
  induction lines generalizing r j with
  | nil => cases h
  | cons line lines ih =>
    rw [feeds, List.flatMap_cons, Interpreter.evaluateAll_append_eq_error_iff] at h
    rcases h with h | ⟨us, mid, hus, h⟩
    · exact ⟨[], line, lines, [], j, rfl, rfl, h⟩
    · obtain ⟨earlier, line', later, ws, mid', rfl, hws, hline'⟩ := ih h
      refine ⟨line :: earlier, line', later, us ++ ws, mid', rfl, ?_, hline'⟩
      rw [feeds, List.flatMap_cons, Interpreter.evaluateAll_append_eq_ok_iff]
      exact ⟨us, mid, ws, hus, hws, rfl⟩

end Reader

namespace Script

variable {i j k mid : Interpreter} {line : String} {lines earlier later : List String}
  {vs : List Datum} {texts : List String} {e : Error}

theorem runLines_cons (h : (i.step line).fault? = none) :
    runLines i (line :: lines) =
      { runLines (i.step line).interpreter lines with
        emissions := (i.step line).emissions ++
          (runLines (i.step line).interpreter lines).emissions } := by
  rw [runLines]
  simp only [h]

theorem runLines_cons_of_fault {f : Fault} (h : (i.step line).fault? = some f) :
    runLines i (line :: lines) = i.step line := by
  rw [runLines]
  simp only [h]

theorem runLines_append (h : (runLines i earlier).fault? = none) :
    runLines i (earlier ++ later) =
      { runLines (runLines i earlier).interpreter later with
        emissions := (runLines i earlier).emissions ++
          (runLines (runLines i earlier).interpreter later).emissions } := by
  induction earlier generalizing i with
  | nil => rfl
  | cons line earlier ih =>
    cases hfault : (i.step line).fault? with
    | some f =>
      rw [runLines_cons_of_fault hfault, hfault] at h
      cases h
    | none =>
      rw [runLines_cons hfault] at h ⊢
      rw [List.cons_append, runLines_cons hfault, ih h, List.append_assoc]

/-- Lines whose batches have values write them. -/
theorem runLines_writes (h : i.Alike j) (hok : ∀ f ∈ i.reader.feeds lines, f.outcome.isOk)
    (hvs : j.evaluateAll ((i.reader.feeds lines).flatMap Feed.exprs) = (.ok vs, k))
    (htexts : Emission.valueLines vs = .ok texts) :
    (runLines i lines).Writes texts k (i.reader.afterLines lines) := by
  induction lines generalizing i j vs texts with
  | nil =>
    cases hvs
    cases htexts
    exact ⟨rfl, rfl, h, rfl⟩
  | cons line lines ih =>
    rw [Reader.feeds, List.forall_mem_cons] at hok
    rw [Reader.feeds, List.flatMap_cons, Interpreter.evaluateAll_append_eq_ok_iff] at hvs
    obtain ⟨us, mid, ws, hus, hws, rfl⟩ := hvs
    obtain ⟨as, bs, has, hbs, rfl⟩ := Emission.valueLines_append_eq_ok_iff.mp htexts
    have hfirst := Interpreter.step_writes h hok.1 hus has
    rw [← hfirst.reader] at hok hws
    have hrest := ih hfirst.alike hok.2 hws hbs
    rw [runLines_cons hfirst.fault]
    refine ⟨hrest.fault, ?_, hrest.alike, ?_⟩
    · rw [Emission.shown_append, hfirst.shown, hrest.shown, List.map_append]
    · rw [hrest.reader, hfirst.reader]
      rfl

/-- A line whose batch fails ends the run. -/
theorem runLines_reports (h : i.Alike j)
    (hok : ∀ f ∈ i.reader.feeds (earlier ++ line :: later), f.outcome.isOk)
    (hvs : j.evaluateAll ((i.reader.feeds earlier).flatMap Feed.exprs) = (.ok vs, mid))
    (htexts : Emission.valueLines vs = .ok texts)
    (herror : mid.evaluateAll ((i.reader.afterLines earlier).feed line).exprs =
      (.error (.error e), k)) :
    (runLines i (earlier ++ line :: later)).Reports texts e k := by
  rw [Reader.feeds_append, List.forall_mem_append, Reader.feeds, List.forall_mem_cons] at hok
  have hearlier := runLines_writes h hok.1 hvs htexts
  rw [← hearlier.reader] at hok herror
  have hline := Interpreter.step_reports hearlier.alike hok.2.1 herror
  rw [runLines_append hearlier.fault, runLines_cons_of_fault hline.fault]
  refine ⟨hline.fault, ?_, hline.alike⟩
  rw [Emission.shown_append, hearlier.shown, hline.shown]
  rfl

end Script

/-! ## The lines of the read loop -/

/-- A reader without an open list holds nothing. -/
theorem Reader.Holds.eq_fresh {r : Reader} {b : Builder} (hr : r.Holds b)
    (h : r.pending = false) : r = {} := by
  have hdepth : r.depth = 0 := by simpa [Reader.pending] using h
  have hbuffer : r.buffer = "" := hr.idle (List.length_eq_zero_iff.mp (hr.depth ▸ hdepth))
  cases r
  simp_all

/-- The loop goes on after writing values, with `framing` around them, and nothing on the
error output. -/
structure Transcript.Writes (t : Transcript) (texts : List String) (framing : List Emission)
    (k : Interpreter) (r : Reader) : Prop where
  escaped : t.escaped? = none
  values : t.emissions.filterMap Emission.value? = texts
  framing : Emission.framing t.emissions = framing
  errors : Emission.errorText false t.emissions = ""
  alike : t.loop.interpreter.Alike k
  reader : t.loop.interpreter.reader = r

namespace ReadLoop

variable {l : ReadLoop} {j k : Interpreter} {line : String} {lines : List String}
  {vs : List Datum} {texts : List String} {b : Builder}

/-- What the loop takes of a line: nothing of one that is blank. -/
def counted (line : String) : String :=
  if isBlankLine line then "" else line

theorem lexemes_counted (line : String) :
    lexemes (counted line).toList = lexemes line.toList := by
  unfold counted
  split_ifs with hblank
  · rw [lexemes_of_isBlank (List.all_eq_true.mp hblank)]
    rfl
  · rfl

theorem submit_writes {r : Reader} (h : (l.interpreter.step line).Writes texts k r) :
    (l.submit line).Writes texts [] k r := by
  refine ⟨?_, ?_, ?_, ?_, h.alike, h.reader⟩
  · simp only [submit, h.fault]
  · rw [submit, ← Emission.filterMap_value?_shown, h.shown]
    simp [List.filterMap_map, Function.comp_def, Emission.value?]
  · rw [submit, Emission.framing, h.shown]
    simp [Emission.value?]
  · rw [submit, ← Emission.errorText_shown, h.shown, Emission.errorText_values]

/-- A blank line counts as an empty one inside a list, and as none elsewhere. -/
theorem handle_writes (hr : l.interpreter.reader.Holds b) (h : l.interpreter.Alike j)
    (hok : (l.interpreter.reader.feed (counted line)).outcome.isOk)
    (hvs : j.evaluateAll (l.interpreter.reader.feed (counted line)).exprs = (.ok vs, k))
    (htexts : Emission.valueLines vs = .ok texts) :
    (l.handle line).Writes texts [] k (l.interpreter.reader.feed (counted line)).reader := by
  have hsubmit := submit_writes (Interpreter.step_writes h hok hvs htexts)
  unfold handle
  by_cases hblank : isBlankLine line
  · have hcounted : counted line = "" := if_pos hblank
    rw [hcounted] at hsubmit hvs ⊢
    rw [if_pos hblank]
    by_cases hpending : l.interpreter.reader.pending
    · rwa [if_pos hpending]
    · have hfresh := hr.eq_fresh (eq_false_of_ne_true hpending)
      rw [hfresh, Reader.feed_empty] at hvs
      cases hvs
      cases htexts
      rw [if_neg hpending, hfresh, Reader.feed_empty]
      exact ⟨rfl, rfl, rfl, rfl, h, hfresh⟩
  · have hcounted : counted line = line := if_neg hblank
    rw [hcounted] at hsubmit ⊢
    rwa [if_neg hblank]

/-- Lines whose batches have values write them, each line after a prompt. -/
theorem handleAll_writes (hr : l.interpreter.reader.Holds b) (h : l.interpreter.Alike j)
    (hok : ∀ f ∈ l.interpreter.reader.feeds (lines.map counted), f.outcome.isOk)
    (hvs : j.evaluateAll ((l.interpreter.reader.feeds (lines.map counted)).flatMap Feed.exprs) =
      (.ok vs, k))
    (htexts : Emission.valueLines vs = .ok texts) :
    ∃ prompts : List String, prompts.length = lines.length ∧
      (l.handleAll true lines).Writes texts (prompts.map .prompt) k
        (l.interpreter.reader.afterLines (lines.map counted)) := by
  induction lines generalizing l b j vs texts with
  | nil =>
    cases hvs
    cases htexts
    exact ⟨[], rfl, rfl, rfl, rfl, rfl, h, rfl⟩
  | cons line lines ih =>
    rw [List.map_cons, Reader.feeds, List.forall_mem_cons] at hok
    rw [List.map_cons, Reader.feeds, List.flatMap_cons,
      Interpreter.evaluateAll_append_eq_ok_iff] at hvs
    obtain ⟨us, mid, ws, hus, hws, rfl⟩ := hvs
    obtain ⟨as, bs, has, hbs, rfl⟩ := Emission.valueLines_append_eq_ok_iff.mp htexts
    have hfirst := handle_writes hr h hok.1 hus has
    obtain ⟨b', hread⟩ := hr.read_of_feed hok.1
    obtain ⟨-, b₁, hr₁, -⟩ := hr.feed hread
    rw [← hfirst.reader] at hok hws hr₁
    obtain ⟨prompts, hlength, hrest⟩ := ih hr₁ hfirst.alike hok.2 hws hbs
    refine ⟨l.prompt :: prompts, by rw [List.length_cons, hlength, List.length_cons], ?_⟩
    simp only [handleAll, hfirst.escaped, if_true]
    refine ⟨hrest.escaped, ?_, ?_, ?_, hrest.alike, ?_⟩
    · rw [List.filterMap_append, List.filterMap_append, hfirst.values, hrest.values]
      rfl
    · rw [Emission.framing_append, Emission.framing_append, hfirst.framing, hrest.framing]
      rfl
    · rw [Emission.errorText_append, Emission.errorText_append, hfirst.errors, hrest.errors]
      rfl
    · rw [hrest.reader, hfirst.reader]
      rfl

/-- The whole loop, from the greeting to the line end after the last prompt. -/
theorem run_writes (intro : String) (hr : l.interpreter.reader.Holds b)
    (h : l.interpreter.Alike j)
    (hok : ∀ f ∈ l.interpreter.reader.feeds (lines.map counted), f.outcome.isOk)
    (hvs : j.evaluateAll ((l.interpreter.reader.feeds (lines.map counted)).flatMap Feed.exprs) =
      (.ok vs, k))
    (htexts : Emission.valueLines vs = .ok texts) :
    ∃ prompts : List String, prompts.length = lines.length + 1 ∧
      (l.run intro [] lines).Writes texts
        ((if intro = "" then [] else [.intro intro]) ++ prompts.map .prompt ++ [.farewell]) k
        (l.interpreter.reader.afterLines (lines.map counted)) := by
  obtain ⟨prompts, hlength, htyped⟩ := handleAll_writes hr h hok hvs htexts
  refine ⟨prompts ++ [(l.handleAll true lines).loop.prompt], ?_, ?_⟩
  · rw [List.length_append, hlength, List.length_singleton]
  simp only [run, handleAll, htyped.escaped]
  refine ⟨rfl, ?_, ?_, ?_, htyped.alike, htyped.reader⟩
  · simp only [List.filterMap_append, htyped.values]
    split_ifs <;> exact List.append_nil texts
  · simp only [Emission.framing_append, htyped.framing]
    split_ifs <;> simp [Emission.framing, Emission.shown, Emission.isEvent, Emission.value?]
  · simp only [Emission.errorText_append, htyped.errors]
    split_ifs <;> rfl

end ReadLoop

/-! ## The batches of a text -/

theorem unterminated_not_mem_of_parse {text : String} {exprs : List Datum}
    (h : parse text = .ok exprs) (content : List Char) :
    .unterminated content ∉ lexemes text.toList := by
  intro hmem
  obtain ⟨ts, hts, -⟩ := Builder.read_eq_ok_iff.mp (parse_eq_ok_iff.mp h)
  rw [mapM_eq_ok_iff] at hts
  have hmap := List.mem_map_of_mem (f := Token.ofLexeme) hmem
  rw [hts] at hmap
  obtain ⟨t, -, ht⟩ := List.mem_map.mp hmap
  cases ht

/-- The batches of a complete text are its expressions, whatever lines it is cut into. -/
theorem Reader.batches_of_parse {text : String} {exprs : List Datum} {lines : List String}
    (hparse : parse text = .ok exprs)
    (hlines : lines.flatMap (lexemes ·.toList) = lexemes text.toList) :
    (∀ f ∈ ({} : Reader).feeds lines, f.outcome.isOk) ∧
      (({} : Reader).feeds lines).flatMap Feed.exprs = exprs ∧
      (({} : Reader).afterLines lines).depth = 0 := by
  have hread := parse_eq_ok_iff.mp hparse
  rw [← hlines, ← Builder.precededBy_nil {}] at hread
  obtain ⟨hok, b, hb, hwhole⟩ := Reader.Holds.fresh.feeds hread
  have haround := congrArg (·.around.length) hwhole
  have houtermost := congrArg (·.outermost) hwhole
  simp only [Builder.length_around_precededBy, Builder.outermost_precededBy] at haround houtermost
  have hdepth : (({} : Reader).afterLines lines).depth = 0 := by
    rw [hb.depth, ← haround]
    rfl
  -- without an open list the last reader holds nothing, so all was handed out
  have hrest := hb.read
  rw [hb.eq_fresh (by simp [Reader.pending, hdepth])] at hrest
  cases hrest
  refine ⟨hok, ?_, hdepth⟩
  simpa [Builder.outermost] using houtermost.symm

/-! ## The three runs -/

namespace Script

variable {i k : Interpreter} {text : String} {texts : List String} {r : Reader} {e : Error}

theorem runText_of_writes (h : (runLines i (fileLines text)).Writes texts k r)
    (hdepth : r.depth = 0) :
    (runText i text).outcome = .ok 0 ∧
      Emission.errorText false (runText i text).emissions = "" ∧
      Emission.outputText (runText i text).emissions = String.join (texts.map (· ++ "\n")) ∧
      (runText i text).interpreter.machine.heap = k.machine.heap := by
  have hclosed : (runLines i (fileLines text)).interpreter.depth = 0 := by
    rw [Interpreter.depth, h.reader, hdepth]
  simp only [runText, h.fault, hclosed, gt_iff_lt, Nat.lt_irrefl, if_false, true_and]
  refine ⟨?_, ?_, h.alike.heap⟩
  · rw [← Emission.errorText_shown, h.shown, Emission.errorText_values]
  · rw [← Emission.outputText_shown, h.shown, Emission.outputText_values]

theorem runText_of_reports (h : (runLines i (fileLines text)).Reports texts e k) :
    (runText i text).outcome = .ok 1 ∧
      Emission.errorText false (runText i text).emissions = e.kind.report e.message ∧
      Emission.outputText (runText i text).emissions = String.join (texts.map (· ++ "\n")) ∧
      (runText i text).interpreter.machine.heap = k.machine.heap := by
  simp only [runText, h.fault, true_and]
  refine ⟨?_, ?_, h.alike.heap⟩
  · rw [← Emission.errorText_shown, h.shown, Emission.errorText_append,
      Emission.errorText_values]
    simp [Emission.errorText, Emission.errorOutput]
  · rw [← Emission.outputText_shown, h.shown, Emission.outputText_append,
      Emission.outputText_values]
    simp [Emission.outputText, Emission.output]

end Script

end Lines

/-- **At once, as a file, or typed in.** A complete text without carriage returns, whose
strings end on their lines, comes to the same in all three ways. If it can be evaluated,
the file and the read loop write its values, `nil` left out, nothing on the error output,
and end with the same heap; the loop writes prompts around them. If it ends in an error, the
file ends in that error with the same heap; it has written the values of the lines before the
one that completed the expression that failed. -/
theorem runs_agree (limit : Nat) (text : String) (exprs : List Datum)
    (hparse : parse text = .ok exprs) (hreturn : '\r' ∉ text.toList)
    (hstrings : ∀ content, .quoted content ∈ lexemes text.toList → '\n' ∉ content) :
    let fresh : Interpreter := { depthLimit := limit }
    (∀ v i, fresh.evalText text = (.ok v, i) →
      ∃ vs, fresh.evaluateAll exprs = (.ok vs, i) ∧ v = vs.getLast?.getD .nil ∧
        ∀ texts, Emission.valueLines vs = .ok texts →
          (∀ path,
            let run := Script.runFile fresh path (.ok text)
            run.outcome = .ok 0 ∧ Emission.errorText false run.emissions = "" ∧
              Emission.outputText run.emissions = String.join (texts.map (· ++ "\n")) ∧
              run.interpreter.machine.heap = i.machine.heap) ∧
          ∀ raw promptStart intro,
            let loop : ReadLoop := { interpreter := fresh, promptStart }
            let run := loop.run intro [] (ReadLoop.inputLines raw text)
            run.escaped? = none ∧ Emission.errorText false run.emissions = "" ∧
              run.emissions.filterMap Emission.value? = texts ∧
              (∃ prompts : List String,
                prompts.length = (ReadLoop.inputLines raw text).length + 1 ∧
                Emission.framing run.emissions =
                  (if intro = "" then [] else [.intro intro]) ++ prompts.map .prompt ++
                    [.farewell]) ∧
              run.loop.interpreter.machine.heap = i.machine.heap) ∧
    ∀ e i, fresh.evalText text = (.error (.error e), i) →
      ∃ before expr after vs j, exprs = before ++ expr :: after ∧
        fresh.evaluateAll before = (.ok vs, j) ∧ j.evaluate expr = (.error (.error e), i) ∧
        ∃ earlier line later, Script.fileLines text = earlier ++ line :: later ∧
          let handed := (({} : Reader).feeds earlier).flatMap Feed.exprs
          let batch := ((({} : Reader).afterLines earlier).feed line).exprs
          handed ++ batch <+: exprs ∧ handed.length ≤ before.length ∧
            before.length < (handed ++ batch).length ∧
            ∀ texts path, Emission.valueLines (vs.take handed.length) = .ok texts →
              let run := Script.runFile fresh path (.ok text)
              run.outcome = .ok 1 ∧
                Emission.errorText false run.emissions = e.kind.report e.message ∧
                Emission.outputText run.emissions = String.join (texts.map (· ++ "\n")) ∧
                run.interpreter.machine.heap = i.machine.heap := by
  intro fresh
  have hlines : (Script.fileLines text).flatMap (lexemes ·.toList) = lexemes text.toList := by
    refine lexemes_fileLines hreturn fun content hcontent => ?_
    rcases hcontent with hquoted | hopen
    · exact hstrings content hquoted
    · exact absurd hopen (unterminated_not_mem_of_parse hparse content)
  have hcounted : ((Script.fileLines text).map ReadLoop.counted).flatMap (lexemes ·.toList) =
      lexemes text.toList := by
    rw [List.flatMap_map]
    simp only [ReadLoop.lexemes_counted, hlines]
  obtain ⟨hok, hexprs, hdepth⟩ := Reader.batches_of_parse hparse hlines
  obtain ⟨hok', hexprs', -⟩ := Reader.batches_of_parse hparse hcounted
  refine ⟨?_, ?_⟩
  · intro v i hvalue
    obtain ⟨vs, hvs, hv⟩ := (Interpreter.evalText_eq_ok_iff hparse).mp hvalue
    refine ⟨vs, hvs, hv, fun texts htexts => ⟨fun path => ?_, fun raw promptStart intro => ?_⟩⟩
    · rw [← hexprs] at hvs
      exact Script.runText_of_writes (Script.runLines_writes (.refl fresh) hok hvs htexts) hdepth
    · rw [← hexprs'] at hvs
      rw [inputLines_eq_fileLines hreturn]
      obtain ⟨prompts, hlength, hrun⟩ := ReadLoop.run_writes
        (l := { interpreter := fresh, promptStart }) intro Reader.Holds.fresh (.refl fresh) hok'
        hvs htexts
      exact ⟨hrun.escaped, hrun.errors, hrun.values, ⟨prompts, hlength, hrun.framing⟩,
        hrun.alike.heap⟩
  · intro e i herror
    rw [Interpreter.evalText_eq_error_iff hparse, ← hexprs] at herror
    obtain ⟨earlier, line, later, vs, mid, hsplit, hvs, hbatch⟩ :=
      Reader.exists_failing_line herror
    obtain ⟨before, expr, after, ws, j, hbefore, hws, hexpr⟩ := Interpreter.exists_failing hbatch
    rw [hsplit, Reader.feeds_append, Reader.feeds, List.flatMap_append,
      List.flatMap_cons] at hexprs
    let rest := (((({} : Reader).afterLines earlier).feed line).reader.feeds later).flatMap
      Feed.exprs
    refine ⟨(({} : Reader).feeds earlier).flatMap Feed.exprs ++ before, expr, after ++ rest,
      vs ++ ws, j, ?_, ?_, hexpr, earlier, line, later, hsplit, ?_, ?_, ?_, ?_⟩
    · rw [← hexprs, hbefore]
      simp [rest]
    · exact Interpreter.evaluateAll_append_eq_ok_iff.mpr ⟨vs, mid, ws, hvs, hws, rfl⟩
    · rw [← hexprs, ← List.append_assoc]
      exact List.prefix_append _ _
    · simp
    · simp [hbefore]
    · intro texts path htexts
      rw [List.take_left' (Interpreter.length_of_evaluateAll hvs)] at htexts
      rw [hsplit] at hok
      refine Script.runText_of_reports ?_
      rw [hsplit]
      exact Script.runLines_reports (.refl fresh) hok hvs htexts hbatch

/-- A definition across lines runs alike in all three ways; a call that fails takes the
value that stands before it on its line along. -/
theorem runs_agree_definition_and_failing_call :
    let fresh : Interpreter := { depthLimit := 9 }
    let text := "(define x\n\n\"b c\") x"
    let exprs : List Datum := [.list [.keyword .define, .symbol "x", .str "b c"], .symbol "x"]
    let file := Script.runFile fresh "definition" (.ok text)
    let loop : ReadLoop := { interpreter := fresh, promptStart := "> " }
    let typed := loop.run ReadLoop.greeting [] (ReadLoop.inputLines true text)
    let failing := "\"b\" (\"c\")"
    let failed := Script.runFile fresh "call" (.ok failing)
    (parse text = .ok exprs ∧ ∃ i, fresh.evalText text = (.ok (.str "b c"), i) ∧
      (file.outcome = .ok 0 ∧ Emission.errorText false file.emissions = "" ∧
        Emission.outputText file.emissions = "\"b c\"\n" ∧
        file.interpreter.machine.heap = i.machine.heap) ∧
      typed.escaped? = none ∧ Emission.errorText false typed.emissions = "" ∧
        typed.emissions.filterMap Emission.value? = ["\"b c\""] ∧
        (∃ prompts : List String, prompts.length = 4 ∧ Emission.framing typed.emissions =
          [.intro ReadLoop.greeting] ++ prompts.map .prompt ++ [.farewell]) ∧
        typed.loop.interpreter.machine.heap = i.machine.heap) ∧
    parse failing = .ok [.str "b", .list [.str "c"]] ∧
      ∃ i, fresh.evalText failing = (.error (.error (.notApplicable "\"c\"")), i) ∧
        failed.outcome = .ok 1 ∧
        Emission.errorText false failed.emissions = "[RUNTIME ERROR]: cannot apply \"c\"\n" ∧
        Emission.outputText failed.emissions = "" ∧
        failed.interpreter.machine.heap = i.machine.heap := by
  intro fresh text exprs file loop typed failing failed
  refine ⟨?_, ?_⟩
  · have hparse : parse text = .ok exprs := by
      dsimp only [text, exprs]
      rfl
    have hlexemes : lexemes text.toList = [.opening, .word "define".toList, .word "x".toList,
        .quoted "b c".toList, .closing, .word "x".toList] := by decide +kernel
    obtain ⟨k, hvs⟩ : ∃ k, fresh.evaluateAll exprs = (.ok [.nil, .str "b c"], k) :=
      ⟨_, rfl⟩
    have hvalue := (Interpreter.evalText_eq_ok_iff hparse).mpr ⟨_, hvs, rfl⟩
    obtain ⟨vs, hvs', -, hruns⟩ :=
      (runs_agree 9 text exprs hparse (by decide +kernel) (by simp [hlexemes])).1 _ _ hvalue
    obtain rfl : [.nil, .str "b c"] = vs :=
      Except.ok.inj (congrArg Prod.fst (hvs.symm.trans hvs'))
    obtain ⟨hfile, htyped⟩ := hruns ["\"b c\""] rfl
    obtain ⟨hescaped, herrors, hvalues, ⟨prompts, hlength, hframing⟩, hheap⟩ :=
      htyped true "> " ReadLoop.greeting
    have hgreeting : ReadLoop.greeting ≠ "" := by decide
    rw [if_neg hgreeting] at hframing
    exact ⟨hparse, k, hvalue, hfile _, hescaped, herrors, hvalues,
      ⟨prompts, hlength.trans (by decide +kernel), hframing⟩, hheap⟩
  · have hparse : parse failing = .ok [.str "b", .list [.str "c"]] := by
      dsimp only [failing]
      rfl
    have hlexemes : lexemes failing.toList = [.quoted ['b'], .opening, .quoted ['c'],
        .closing] := by decide +kernel
    obtain ⟨k, hcall⟩ : ∃ k, fresh.evaluateAll [.str "b", .list [.str "c"]] =
        (.error (.error (.notApplicable "\"c\"")), k) := ⟨_, rfl⟩
    have herror := (Interpreter.evalText_eq_error_iff hparse).mpr hcall
    obtain ⟨-, -, -, vs, -, -, -, -, earlier, line, later, hlines, -, -, -, hfailed⟩ :=
      (runs_agree 9 failing _ hparse (by decide +kernel) (by simp [hlexemes])).2 _ _ herror
    -- the text has one line, so nothing was handed over before
    have hone : Script.fileLines failing = [failing] := by decide +kernel
    obtain rfl : earlier = [] := by
      rw [hone, List.singleton_eq_append_iff] at hlines
      rcases hlines with ⟨hearlier, -⟩ | ⟨-, hnone⟩
      · exact hearlier
      · cases hnone
    exact ⟨hparse, k, herror, hfailed [] "call" rfl⟩

end SmallScheme
