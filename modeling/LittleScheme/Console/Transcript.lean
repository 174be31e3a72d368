import LittleScheme.Console.Arguments
import LittleScheme.Console.Path
import LittleScheme.Session
import LittleScheme.Text.Encoded

/-!
# The program

`Transcript.ofRun` is what the command writes and how it ends, as a function of its arguments, its
variables, the files around it and its standard input.  The lines come from a `Source`, which is a
file or the standard input, and `Notice.text` is what is logged while they run.
-/

namespace LittleScheme

open Text

/-! ## The log -/

/-- The line that is logged for a notice. -/
def Notice.text : Notice → String
  | .collected dead live =>
    "DEBUG mscheme.types.heap: collected " ++ decimalText dead ++ " values, " ++
      decimalText live ++ " live"
  | .failed line e =>
    "DEBUG mscheme.interpreter: evaluation of " ++ quoted line ++ " failed: " ++ e.message

/-- The level of notices. -/
def debugLevel : Nat := 10

/-- The log of a session at a level. -/
def Session.log (session : Session) (level : Nat) : String :=
  if level ≤ debugLevel then
    String.join (session.journal.reverse.map fun notice => notice.text ++ "\n")
  else ""

namespace Console

/-! ## Texts -/

/-- How the program is called. -/
def usage : String := "usage: mscheme [-h] [source]\n"

/-- The help text. -/
def helpText : String :=
  usage ++ "\nRun the mscheme REPL.\n\npositional arguments:\n" ++
    "  source      file to read instead of standard input\n\noptions:\n" ++
    "  -h, --help  show this help message and exit\n"

/-- What is written when the arguments are refused. -/
def refusal (message : String) : String := usage ++ "mscheme: error: " ++ message ++ "\n"

/-! ## Runs -/

/-- The recursion limit in force when the program starts. -/
def initialLimit : Nat := 10000

/-- How a run ends. -/
inductive Ending
  | exit (code : Nat)
  | badSetting (cause : SettingFault)
  | unopened (path : String) (cause : PathFault)
  | undecodable
  | fault (cause : Fault)
deriving DecidableEq

/-- The wording of an ending that is no exit. -/
def Ending.message : Ending → String
  | .exit _ => ""
  | .badSetting cause => cause.message
  | .unopened path cause => cause.message path
  | .undecodable => "the file is not encoded in UTF-8"
  | .fault cause => cause.message

/-- All that a run writes, and how it ends. -/
structure Transcript where
  stdout : String := ""
  stderr : String := ""
  ending : Ending
deriving DecidableEq

/-- What is to be run: lines, and how the run ends behind them. -/
structure Source where
  lines : List String := []
  ending : Ending := .exit 0
deriving DecidableEq

namespace Source

/-- The lines of a file.  Where the file can be decoded no further, the run ends. -/
def ofContents (contents : Contents) : Source :=
  let decoded := decode contents
  { lines := decoded.lines, ending := if decoded.isWhole then .exit 0 else .undecodable }

/-- The source that is asked for: the file under a path, or standard input. -/
def select (files : String → Except PathFault Contents) (stdin : String) : Option String → Source
  | none => { lines := Text.lines stdin }
  | some path =>
    match files path with
    | .error cause => { ending := .unopened path cause }
    | .ok contents => ofContents contents

end Source

namespace Transcript

/-- Run a source in a session. -/
def ofSource (session : Session) (level : Nat) (source : Source) : Transcript :=
  let (stdout, fault?, session) := session.serve source.lines
  { stdout, stderr := session.log level, ending := fault?.elim source.ending .fault }

/-- Run the program.  The settings are looked at before the source. -/
def ofRun (arguments : List String) (vars : Settings.Variables)
    (files : String → Except PathFault Contents) (stdin : String) : Transcript :=
  match Request.ofArguments arguments with
  | .help => { stdout := helpText, ending := .exit 0 }
  | .refuse message => { stderr := refusal message, ending := .exit 2 }
  | .run source? =>
    match Session.configured vars initialLimit none with
    | .error cause => { ending := .badSetting cause }
    | .ok session =>
      ofSource session (Settings.logLevel vars) (Source.select files stdin source?)

end Transcript

end Console

end LittleScheme
