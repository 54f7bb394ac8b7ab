import SmallScheme.Session.Emission
import SmallScheme.Text.Lines

/-!
# The read loop

Lines are taken one after the other, each after a prompt that shows how many
lists are open. An error is reported and the loop goes on; only an integer with
too many digits ends it before the input does. Blank lines count only inside an
open list. Queued lines come first and without prompts.
-/

namespace SmallScheme

/-- A prompt: its start, the number of open lists, and a space. -/
def promptText (start : String) (depth : Nat) : String :=
  start ++ toString depth ++ " "

/-- A read loop between two lines. -/
structure ReadLoop where
  interpreter : Interpreter := {}
  /-- What stands before the depth in a prompt. -/
  promptStart : String
  /-- The prompt for the next line. -/
  prompt : String := promptText promptStart interpreter.depth

/-- What a read loop wrote, where it stands, and what ended it early. -/
structure Transcript where
  emissions : List Emission
  loop : ReadLoop
  escaped? : Option Oversized

namespace ReadLoop

/-- The version that the greeting names. -/
def version : String := "0.1.0"

/-- The greeting. -/
def greeting : String := "RScheme " ++ version ++ " :: Ctrl-D to exit"

/-- Take a line that counts. The prompt shows the depth after it, unless it ended the loop. -/
def submit (l : ReadLoop) (line : String) : Transcript :=
  let step := l.interpreter.step line
  let escaped? := match step.fault? with
    | some (.oversized o) => some o
    | _ => none
  let prompt := match escaped? with
    | some _ => l.prompt
    | none => promptText l.promptStart step.interpreter.depth
  { emissions := step.emissions
    loop := { l with interpreter := step.interpreter, prompt }
    escaped? }

/-- A line of blanks only. -/
def isBlankLine (line : String) : Bool :=
  line.toList.all Text.isBlank

/-- Take any line. -/
def handle (l : ReadLoop) (line : String) : Transcript :=
  if isBlankLine line then
    if l.interpreter.reader.pending then l.submit ""
    else { emissions := [], loop := l, escaped? := none }
  else l.submit line

/-- Take lines in order, each after a prompt if `prompted`, until one ends the loop. -/
def handleAll (prompted : Bool) (l : ReadLoop) : List String → Transcript
  | [] => { emissions := [], loop := l, escaped? := none }
  | line :: lines =>
    let shown := if prompted then [Emission.prompt l.prompt] else []
    let first := l.handle line
    match first.escaped? with
    | some _ => { first with emissions := shown ++ first.emissions }
    | none =>
      let rest := handleAll prompted first.loop lines
      { rest with emissions := shown ++ first.emissions ++ rest.emissions }

/-- Take the queued lines and then the lines of the input, up to its end. -/
def run (l : ReadLoop) (intro : String) (queue lines : List String) : Transcript :=
  let start := if intro = "" then [] else [Emission.intro intro]
  let queued := l.handleAll false queue
  match queued.escaped? with
  | some _ => { queued with emissions := start ++ queued.emissions }
  | none =>
    let typed := queued.loop.handleAll true lines
    let ending := match typed.escaped? with
      | some _ => []
      | none => [Emission.prompt typed.loop.prompt, .farewell]
    { typed with emissions := start ++ queued.emissions ++ typed.emissions ++ ending }

/-- The lines of an input, without their ends: a raw input loses one newline at the
end of a line, any other all carriage returns and newlines there. -/
def inputLines (raw : Bool) (input : String) : List String :=
  (Text.lines Text.isNewline input.toList).map fun line =>
    String.ofList (if raw then Text.dropNewline line else Text.dropLineEnds line)

end ReadLoop

end SmallScheme
