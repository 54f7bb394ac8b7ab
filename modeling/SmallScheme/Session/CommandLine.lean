import SmallScheme.Session.ReadLoop
import SmallScheme.Session.Script
import SmallScheme.Settings

/-!
# The command line

`rscheme [-h] [--debug] [file]`. Long options may be cut short as long as one
option is meant; `--` ends the options; what is left over is refused. With a file
it is run, without one a read loop is started.
-/

namespace SmallScheme.CommandLine

/-! ## Arguments -/

/-- The options. -/
inductive Flag where
  | help
  | debug
deriving Repr, DecidableEq

/-- How an option is named in a message. -/
def Flag.names : Flag → String
  | .help => "-h/--help"
  | .debug => "--debug"

/-- What an argument is by its form. -/
inductive Argument where
  /-- Anything that is not an option. -/
  | plain (text : String)
  /-- An option with the value after an equals sign. -/
  | option (flag : Flag) (value : Option String)
  /-- `-h` with something after it, an equals sign between the two left out. -/
  | shortHelp (rest : List Char)
  /-- An option that there is not. -/
  | unknown (text : String)
  /-- The first `--`. -/
  | separator
deriving Repr, DecidableEq

/-- What the command line asks for. -/
inductive Request where
  | help
  | refuse (message : String)
  | start (file : Option String) (debug : Bool)
deriving Repr, DecidableEq

/-- The part before the first equals sign and, if there is one, the part after it. -/
def splitValue (cs : List Char) : List Char × Option (List Char) :=
  match cs.dropWhile (· != '=') with
  | [] => (cs, none)
  | _ :: value => (cs.takeWhile (· != '='), some value)

/-- `-` and digits, perhaps with a point before the last of them. A negative number
is not an option. -/
def isNegativeNumber (cs : List Char) : Bool :=
  let isDigit (c : Char) : Bool := (Text.digitValue? c).isSome
  match Text.dropNewline cs with
  | '-' :: body =>
    match body.dropWhile isDigit with
    | [] => !body.isEmpty
    | '.' :: fraction => !fraction.isEmpty && fraction.all isDigit
    | _ => false
  | _ => false

/-- Whether a text starts with another. -/
def startsWith (cs start : List Char) : Bool :=
  start.isPrefixOf cs

/-- What an argument before `--` is; an abbreviation that fits both options is
refused. -/
def classify (text : String) : Except String Argument :=
  let cs := text.toList
  let (name, value) := splitValue cs
  let value := value.map String.ofList
  if !startsWith cs ['-'] || cs.length = 1 then .ok (.plain text)
  else if text = "-h" then .ok (.option .help none)
  else if startsWith cs ['-', '-'] then
    match startsWith "--help".toList name, startsWith "--debug".toList name with
    | true, true => .error ("ambiguous option: " ++ text ++ " could match --help, --debug")
    | true, false => .ok (.option .help value)
    | false, true => .ok (.option .debug value)
    | false, false => .ok (if cs.contains ' ' then .plain text else .unknown text)
  else if startsWith cs ['-', 'h', '='] then .ok (.shortHelp (cs.drop 3))
  else if startsWith cs ['-', 'h'] then .ok (.shortHelp (cs.drop 2))
  else if isNegativeNumber cs || cs.contains ' ' then .ok (.plain text)
  else .ok (.unknown text)

/-- What all arguments are. -/
def classifyAll : List String → Except String (List Argument)
  | [] => .ok []
  | text :: texts =>
    if text = "--" then .ok (.separator :: texts.map .plain)
    else do return (← classify text) :: (← classifyAll texts)

/-- The message about a value that an option does not take. -/
def unwantedValue (flag : Flag) (value : String) : String :=
  "argument " ++ flag.names ++ ": ignored explicit argument " ++ Text.quoted value

/-- What stands after `-h` is read as more options of one letter, of which `h` is the
only one: each asks for help again, and from the first other letter on it is a value
that help does not take. -/
def shortHelp : List Char → Request
  | ['h'] => .help
  | 'h' :: more => shortHelp more
  | value => .refuse (unwantedValue .help (String.ofList value))

/-- Go through the arguments. `file?` is the first plain one once it has been met,
and `extras` are the arguments that nothing takes, last first. The separator
belongs to the file that stands next to it. -/
def request (file? : Option String) (debug : Bool) (extras : List String) :
    List Argument → Request
  | [] =>
    if extras.isEmpty then .start file? debug
    else .refuse ("unrecognized arguments: " ++ " ".intercalate extras.reverse)
  | .option flag (some value) :: _ => .refuse (unwantedValue flag value)
  | .option .help none :: _ => .help
  | .option .debug none :: rest => request file? true extras rest
  | .shortHelp rest :: _ => shortHelp rest
  | .unknown text :: rest => request file? debug (text :: extras) rest
  | .plain text :: .separator :: rest =>
    match file? with
    | none => request (some text) debug extras rest
    | some _ => request file? debug ("--" :: text :: extras) rest
  | .plain text :: rest =>
    match file? with
    | none => request (some text) debug extras rest
    | some _ => request file? debug (text :: extras) rest
  | .separator :: .plain text :: rest =>
    match file? with
    | none => request (some text) debug extras rest
    | some _ => request file? debug (text :: "--" :: extras) rest
  | .separator :: rest =>
    match file? with
    | none => request file? debug extras rest
    | some _ => request file? debug ("--" :: extras) rest

/-- What the arguments ask for. -/
def parse (args : List String) : Request :=
  match classifyAll args with
  | .ok arguments => request none false [] arguments
  | .error message => .refuse message

/-! ## Running -/

/-- How the command is used. -/
def usage : String := "usage: rscheme [-h] [--debug] [file]"

/-- The answer to `--help`. -/
def helpText : String :=
  usage ++ "\n\npositional arguments:\n" ++
  "  file        file to interpret and run (if empty, goes to interactive mode)\n" ++
  "\noptions:\n" ++
  "  -h, --help  show this help message and exit\n" ++
  "  --debug     log tokens, trees and closure calls to stderr"

/-- What surrounds a run of the command. -/
structure World where
  environment : Environment
  /-- The text of a file, or why it cannot be read. -/
  openFile : String → Except String String
  /-- What is typed in. -/
  input : String

/-- What ends a run without an exit code. -/
inductive Escape where
  | oversized (o : Oversized)
  | limit (fault : Settings.LimitFault)
deriving Repr, DecidableEq

/-- What a run of the command comes to. -/
structure Result where
  emissions : List Emission
  verbose : Bool
  outcome : Except Escape Nat

/-- Whether a run logs events. -/
def isVerbose (settings : Settings) (debug : Bool) : Bool :=
  debug || settings.logLevel ≤ Settings.debugLevel

/-- The interpreter that settings ask for. -/
def interpreter (settings : Settings) : Except Settings.LimitFault Interpreter := do
  let limit ← settings.appliedLimit Settings.hostRecursionLimit
  return { depthLimit := min limit defaultDepthLimit }

/-- Run the command. -/
def run (args : List String) (world : World) : Result :=
  let settings := Settings.ofEnvironment world.environment
  match parse args with
  | .help => { emissions := [.intro helpText], verbose := false, outcome := .ok 0 }
  | .refuse message =>
    { emissions := [.notice usage, .notice ("rscheme: error: " ++ message)]
      verbose := false
      outcome := .ok 2 }
  | .start file? debug =>
    let verbose := isVerbose settings debug
    match interpreter settings with
    | .error fault => { emissions := [], verbose, outcome := .error (.limit fault) }
    | .ok i =>
      match file? with
      | some path =>
        let script := Script.runFile i path (world.openFile path)
        { emissions := script.emissions
          verbose
          outcome := script.outcome.mapError .oversized }
      | none =>
        let loop : ReadLoop := { interpreter := i, promptStart := settings.promptStart }
        let session := loop.run ReadLoop.greeting [] (ReadLoop.inputLines true world.input)
        { emissions := session.emissions
          verbose
          outcome := match session.escaped? with
            | some o => .error (.oversized o)
            | none => .ok 0 }

end SmallScheme.CommandLine
