import SmallScheme.Editor.Index

/-!
# Diagnostics

What an editor marks in a document: an error for each problem, and one warning if
lists are left open at the end.
-/

namespace SmallScheme.Editor

/-- How bad a diagnostic is. -/
inductive Severity where
  | error
  | warning
deriving Repr, DecidableEq

/-- A mark in a document. -/
structure Diagnostic where
  range : Range
  message : String
  severity : Severity
deriving Repr, DecidableEq

/-- Who the marks come from. -/
def diagnosticSource : String := "rscheme-ls"

/-- The mark of a problem. -/
def Problem.diagnostic (p : Problem) : Diagnostic :=
  { range := .ofLength p.position p.length, message := p.cause.message, severity := .error }

/-- The mark of open lists, at the start of the last line. -/
def unclosedWarning (text : String) (openLists : Nat) : Diagnostic :=
  { range := .ofLength { line := text.toList.countP Text.isNewline, column := 0 } 1
    message := toString openLists ++ " unclosed '(' at end of document"
    severity := .warning }

/-- The marks of a text with its index. -/
def diagnostics (text : String) (index : Index) : List Diagnostic :=
  index.problems.map Problem.diagnostic ++
    (if index.openLists > 0 then [unclosedWarning text index.openLists] else [])

end SmallScheme.Editor
