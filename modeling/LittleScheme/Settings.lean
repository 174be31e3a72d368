import LittleScheme.Text.Blank
import LittleScheme.Text.Decimal
import LittleScheme.Text.Quoted

/-!
# Settings

The settings of a session, read from the texts of variables: `Settings.recursionLimit`,
`Settings.collectOnError` and `Settings.logLevel`.  A variable that is missing or blank means the
default.  `Settings.raiseLimit` never lowers the recursion limit in force.
-/

namespace LittleScheme

open Text

/-- What can be wrong with a setting. -/
inductive SettingFault
  /-- The text of a variable should be an integer and is not. -/
  | badInteger (name text : String)
  /-- The recursion limit is larger than any that can be in force. -/
  | limitTooLarge
deriving DecidableEq

/-- The wording of what is wrong with a setting. -/
def SettingFault.message : SettingFault → String
  | .badInteger name text => name ++ " must be an integer, got " ++ quoted text
  | .limitTooLarge => "Python int too large to convert to C int"

namespace Settings

/-- Variables and their texts. -/
abbrev Variables := List (String × String)

/-! ## Types of settings -/

/-- The text of a variable, unless it is missing or blank. -/
def text? (vars : Variables) (name : String) : Option String :=
  (vars.lookup name).filter fun text => !allBlank text.toList

/-- An integer, in lenient notation. -/
def integer (vars : Variables) (name : String) (default : Int) : Except SettingFault Int :=
  match text? vars name with
  | none => .ok default
  | some text =>
    match numeral (trim text.toList) with
    | .ok n => .ok n
    | .error _ => .error (.badInteger name text)

/-- The words for a flag that is set. -/
def trueWords : List String := ["1", "true", "yes", "on"]

/-- A flag: set by one of the words, in any case. -/
def flag (vars : Variables) (name : String) (default : Bool) : Bool :=
  match text? vars name with
  | none => default
  | some text => trueWords.contains (String.ofList ((trim text.toList).map Char.toLower))

/-! ## The settings of a session -/

/-- The recursion limit that is asked for unless a setting says otherwise. -/
def defaultRecursionLimit : Int := 10000

/-- The recursion limit that is asked for. -/
def recursionLimit (vars : Variables) : Except SettingFault Int :=
  integer vars "MSCHEME_RECURSION_LIMIT" defaultRecursionLimit

/-- Whether to collect after a failure too. -/
def collectOnError (vars : Variables) : Bool :=
  flag vars "MSCHEME_COLLECT_ON_ERROR" false

/-- The largest recursion limit that can be in force. -/
def greatestLimit : Int := 2147483647

/-- The limit in force after another one is asked for: it is only ever raised. -/
def raiseLimit (current wanted : Int) : Except SettingFault Int :=
  if wanted ≤ current then .ok current
  else if wanted ≤ greatestLimit then .ok wanted
  else .error .limitTooLarge

/-! ## The log level -/

/-- The upper-case form of a letter.  Beside the ASCII letters there are two letters, the dotless
i and the long s, whose upper-case form is in ASCII. -/
def upper (c : Char) : Char :=
  if c = 'ı' then 'I' else if c = 'ſ' then 'S' else c.toUpper

/-- The names of log levels. -/
def levelNames : List (String × Nat) :=
  [("NOTSET", 0), ("DEBUG", 10), ("INFO", 20), ("WARNING", 30), ("WARN", 30), ("ERROR", 40),
   ("CRITICAL", 50), ("FATAL", 50)]

/-- The level for warnings, which is the default. -/
def warningLevel : Nat := 30

/-- The level from which on notices are logged, by its name in any case. -/
def logLevel (vars : Variables) : Nat :=
  ((vars.lookup "MSCHEME_LOG_LEVEL").bind fun name =>
    levelNames.lookup (String.ofList ((trim name.toList).map upper))).getD warningLevel

end Settings

end LittleScheme
