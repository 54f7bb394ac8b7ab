import SmallScheme.Editor.Position
import SmallScheme.Token.Basic

/-!
# The index of a document

What an editor needs to know of a text without evaluating it: the names that it
defines at the top level, what is wrong with it, and how many lists it leaves
open. The scan is tolerant: a bad word is noted and passed over, and so is a
closing parenthesis with nothing to close.
-/

namespace SmallScheme.Editor

/-- What a definition defines. -/
inductive DefinitionKind where
  | value
  | function
deriving Repr, DecidableEq

/-- The word for a kind of definition. -/
def DefinitionKind.word : DefinitionKind → String
  | .value => "var"
  | .function => "function"

/-- A defined name and where it stands. -/
structure Definition where
  name : String
  kind : DefinitionKind
  position : Position
deriving Repr, DecidableEq

/-- What can be wrong with a text. -/
inductive ProblemCause where
  | unrecognized (word : String)
  | unterminatedString
  | unmatchedClose
deriving Repr, DecidableEq

/-- The wording of a problem. -/
def ProblemCause.message : ProblemCause → String
  | .unrecognized word => "Unrecognized token " ++ word
  | .unterminatedString => "Unterminated string"
  | .unmatchedClose => "Unmatched ')'"

/-- Something wrong with a text, and the characters that are at fault. -/
structure Problem where
  cause : ProblemCause
  position : Position
  length : Nat
deriving Repr, DecidableEq

/-- What is known of a document. -/
structure Index where
  /-- The defined names in the order of their first definition, each as it was
  defined last. -/
  definitions : List Definition := []
  /-- What is wrong, in the order of reading. -/
  problems : List Problem := []
  /-- The number of lists that are never closed. -/
  openLists : Nat := 0
deriving Repr, DecidableEq

/-! ## Findings -/

/-- A lexeme that is not at fault. -/
inductive ItemShape where
  | opening
  | closing
  | string
  | word (token : Token)

/-- A lexeme that is not at fault, and where it starts. -/
structure Item where
  start : Nat
  shape : ItemShape

/-- Something at fault, where it starts, and how many characters it has. -/
structure Flaw where
  start : Nat
  cause : ProblemCause
  length : Nat

/-- What a lexeme turns out to be. -/
inductive Finding where
  | item (i : Item)
  | flaw (f : Flaw)

namespace Finding

/-- The item of a finding. -/
def item? : Finding → Option Item
  | .item i => some i
  | .flaw _ => none

/-- The flaw of a finding. -/
def flaw? : Finding → Option Flaw
  | .item _ => none
  | .flaw f => some f

/-- The length of an unterminated string as far as it is marked: its first line
without trailing blanks. -/
def unterminatedLength (content : List Char) : Nat :=
  (Text.trimEnd ('"' :: content.takeWhile (fun c => !Text.isNewline c))).length

/-- What a lexeme turns out to be. Only a literal with too many digits is beyond
judging. -/
def ofLocated (l : Located) : Except Oversized Finding :=
  match l.lexeme with
  | .opening => .ok (.item { start := l.start, shape := .opening })
  | .closing => .ok (.item { start := l.start, shape := .closing })
  | .quoted _ => .ok (.item { start := l.start, shape := .string })
  | .unterminated content =>
    .ok (.flaw {
      start := l.start, cause := .unterminatedString, length := unterminatedLength content })
  | .word spelling =>
    match Token.ofWord (String.ofList spelling) with
    | .ok token => .ok (.item { start := l.start, shape := .word token })
    | .error (.oversized o) => .error o
    | .error (.error _) =>
      .ok (.flaw {
        start := l.start
        cause := .unrecognized (String.ofList spelling)
        length := spelling.length })

end Finding

/-! ## Definitions -/

/-- Whether items go on with the value of a function definition. -/
def valueKind : List Item → DefinitionKind
  | ⟨_, .opening⟩ :: ⟨_, .word (.keyword .lambda)⟩ :: _ => .function
  | _ => .value

/-- The definition that items after an opening parenthesis start: name, kind and
offset. -/
def definition? : List Item → Option (String × DefinitionKind × Nat)
  | ⟨_, .word (.keyword .define)⟩ :: ⟨start, .word (.identifier name)⟩ :: value =>
    some (name, valueKind value, start)
  | _ => none

/-- What a walk through the items collects. -/
structure Walk where
  definitions : List (String × DefinitionKind × Nat) := []
  /-- The closing parentheses with nothing to close. -/
  unmatched : List Flaw := []
  /-- The number of lists still open at the end. -/
  openLists : Nat := 0

/-- Walk through items from inside `depth` lists. -/
def walk (depth : Nat) : List Item → Walk
  | [] => { openLists := depth }
  | ⟨start, shape⟩ :: items =>
    match shape with
    | .opening =>
      let later := walk (depth + 1) items
      if depth = 0 then
        { later with definitions := (definition? items).toList ++ later.definitions }
      else later
    | .closing =>
      if depth = 0 then
        let later := walk 0 items
        let flaw : Flaw := { start, cause := .unmatchedClose, length := 1 }
        { later with unmatched := flaw :: later.unmatched }
      else walk (depth - 1) items
    | _ => walk depth items

/-- Put a definition in the place of an earlier one of its name, or last. -/
def putDefinition (d : Definition) : List Definition → List Definition
  | [] => [d]
  | e :: es => if e.name = d.name then d :: es else e :: putDefinition d es

/-! ## The index -/

/-- A flaw with its position in the text. It covers one character at least. -/
def Flaw.problem (text : List Char) (f : Flaw) : Problem :=
  { cause := f.cause, position := positionAt text f.start, length := max f.length 1 }

/-- The definitions of a text, each name once. -/
def collectDefinitions (text : List Char) (found : List (String × DefinitionKind × Nat)) :
    List Definition :=
  found.foldl
    (fun ds (name, kind, start) =>
      putDefinition { name, kind, position := positionAt text start } ds)
    []

/-- The index of a text. -/
def Index.ofText (text : String) : Except Oversized Index := do
  let cs := text.toList
  let found ← (locatedLexemes cs).mapM Finding.ofLocated
  let walked := walk 0 (found.filterMap Finding.item?)
  let flaws := found.filterMap Finding.flaw? ++ walked.unmatched
  return {
    definitions := collectDefinitions cs walked.definitions
    problems := (flaws.map (·.problem cs)).mergeSort
      (fun p q => !q.position.before p.position)
    openLists := walked.openLists }

/-- The definition of a name. -/
def Index.find? (i : Index) (name : String) : Option Definition :=
  i.definitions.find? (·.name = name)

end SmallScheme.Editor
