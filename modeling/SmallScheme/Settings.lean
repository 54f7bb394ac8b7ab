import SmallScheme.Number.Basic
import SmallScheme.Text.Casing

/-!
# Settings

What the variables of the surrounding system decide: how deep evaluation may
nest, what is logged, and how the prompt starts. A variable that cannot be
understood counts as absent.
-/

namespace SmallScheme

/-- The variables of the surrounding system, by name. -/
abbrev Environment := String → Option String

namespace Settings

/-- The level of the events of a detailed log. -/
def debugLevel : Nat := 10

/-- The level of warnings, which is the default. -/
def warningLevel : Nat := 30

end Settings

/-- What a session can be told from outside. -/
structure Settings where
  /-- How deep evaluation may nest. -/
  recursionLimit : Nat := 10000
  /-- Events below this level are not logged. -/
  logLevel : Nat := Settings.warningLevel
  /-- What stands before the depth in a prompt. -/
  promptStart : String := ">>>"
deriving Repr, DecidableEq

namespace Settings

/-- A recursion limit below this is raised to it. -/
def leastRecursionLimit : Nat := 100

/-- The largest limit that the surrounding system accepts. -/
def greatestRecursionLimit : Nat := 2147483647

/-- The limit of a system that was never told one. -/
def hostRecursionLimit : Nat := 1000

/-- The integer that a variable holds, if it holds one that can be read. -/
def readInteger? (text : String) : Option Int :=
  (Number.readInt? text).bind Except.toOption

/-- The names of log levels. -/
def levelNames : List (String × Nat) :=
  [("CRITICAL", 50), ("FATAL", 50), ("ERROR", 40), ("WARNING", warningLevel),
   ("WARN", warningLevel), ("INFO", 20), ("DEBUG", debugLevel), ("NOTSET", 0)]

/-- The log level of a name, in any case and with blanks around it. -/
def readLevel (text : String) : Nat :=
  let name := Text.upperCase (String.ofList (Text.trim text.toList))
  (levelNames.lookup name).getD warningLevel

/-- The settings that an environment gives. -/
def ofEnvironment (environment : Environment) : Settings :=
  let defaults : Settings := {}
  let limit : Int := ((environment "RSCHEME_RECURSION_LIMIT").bind readInteger?).getD
    defaults.recursionLimit
  { recursionLimit := max limit.toNat leastRecursionLimit
    logLevel := ((environment "RSCHEME_LOG_LEVEL").map readLevel).getD defaults.logLevel
    promptStart := (environment "RSCHEME_PROMPT").getD defaults.promptStart }

/-- A limit beyond what the surrounding system accepts. -/
inductive LimitFault where
  | tooLarge
deriving Repr, DecidableEq

/-- The limit in force after asking for the one in the settings: it is raised if it
is lower, and never lowered. -/
def appliedLimit (s : Settings) (host : Nat) : Except LimitFault Nat :=
  if host < s.recursionLimit then
    if s.recursionLimit ≤ greatestRecursionLimit then .ok s.recursionLimit else .error .tooLarge
  else .ok host

end Settings

end SmallScheme
