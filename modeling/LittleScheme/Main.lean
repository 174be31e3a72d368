import LittleScheme.Console.Transcript

/-!
# The command

The outer layer of the program: it reads arguments, variables and input, and writes what
`LittleScheme.Console` and `LittleScheme.Session` say.  Standard input is served line by line.
-/

namespace LittleScheme.Console

/-- The variables that hold settings. -/
def settingNames : List String :=
  ["MSCHEME_RECURSION_LIMIT", "MSCHEME_COLLECT_ON_ERROR", "MSCHEME_LOG_LEVEL"]

/-- The variables that are set. -/
def readVariables : IO Settings.Variables :=
  settingNames.filterMapM fun name => do
    return (← IO.getEnv name).map (name, ·)

/-- Why a file could not be opened.  A directory is opened like a file and found out only when it
is read, and then no path is reported. -/
def pathFault : IO.Error → PathFault
  | .inappropriateType (some _) _ _ => .notDirectory
  | .inappropriateType none _ _ => .isDirectory
  | .invalidArgument _ 22 _ => .zeroCharacter
  | .invalidArgument _ _ _ => .tooLong
  | _ => .missing

/-- The contents of a file. -/
def readContents (path : String) : IO (Except PathFault Contents) := do
  try
    return .ok (← IO.FS.readBinFile path)
  catch e => return .error (pathFault e)

/-- Write the end of a run, and the code to exit with. -/
def finish (ending : Ending) : IO UInt32 := do
  match ending with
  | .exit code => return code.toUInt32
  | _ =>
    IO.eprintln ending.message
    return 1

/-- Serve lines one by one; the result is the session after them, or the fault that ended it. -/
def serveLines (level : Nat) : Session → List String → IO (Except Fault Session)
  | session, [] => return .ok session
  | session, line :: rest => do
    match Session.answer line session with
    | .ok text session =>
      IO.print text
      (← IO.getStdout).flush
      IO.eprint (session.log level)
      serveLines level { session with journal := [] } rest
    | .error fault session =>
      IO.eprint (session.log level)
      return .error fault

/-- Serve standard input up to its end. -/
partial def serveInput (level : Nat) (session : Session) : IO UInt32 := do
  let chunk ← (← IO.getStdin).getLine
  if chunk.isEmpty then return 0
  match ← serveLines level session (Text.lines chunk) with
  | .ok session => serveInput level session
  | .error fault => finish (.fault fault)

/-- Run the source that was asked for in a session. -/
def runSource (level : Nat) (session : Session) : Option String → IO UInt32
  | none => serveInput level session
  | some path => do
    let contents ← readContents path
    let source := Source.select (fun _ => contents) "" (some path)
    match ← serveLines level session source.lines with
    | .ok _ => finish source.ending
    | .error fault => finish (.fault fault)

end LittleScheme.Console

open LittleScheme LittleScheme.Console in
/-- The command. -/
def main (arguments : List String) : IO UInt32 := do
  let vars ← readVariables
  match Request.ofArguments arguments with
  | .help =>
    IO.print helpText
    return 0
  | .refuse message =>
    IO.eprint (refusal message)
    return 2
  | .run source? =>
    match Session.configured vars initialLimit none with
    | .error cause => finish (.badSetting cause)
    | .ok session => runSource (Settings.logLevel vars) session source?
