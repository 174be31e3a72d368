import LittleScheme.Text.Decimal
import LittleScheme.Text.Quoted

/-!
# Command line arguments

The program takes one optional argument, the name of a source file, and the option `-h` or `--help`.
`Argument.classify` looks at one argument by itself: long options may be shortened, short ones may
be run together, two dashes end the options, and a negative number or a text with a space in it is
no option.  `Request.ofArguments` says what all arguments together ask for.
-/

namespace LittleScheme.Console

open Text

/-! ## One argument -/

/-- What an argument is by itself. -/
inductive Argument
  /-- The help option.  A text that was attached to it is refused. -/
  | help (attached? : Option String)
  /-- Some other option. -/
  | unknown
  /-- Two dashes. -/
  | separator
  /-- No option. -/
  | positional
deriving DecidableEq

namespace Argument

/-- The part in front of the first equals sign, and the part behind it. -/
def splitEquals (cs : List Char) : List Char × Option (List Char) :=
  match cs.dropWhile (· != '=') with
  | [] => (cs, none)
  | _ :: value => (cs.takeWhile (· != '='), some value)

/-- The short help option with these characters attached to it.  Options may be run together, so
that a further `h` is the option once more; anything else is refused. -/
def shortHelp : List Char → Argument
  | ['h'] => .help none
  | 'h' :: c :: cs => shortHelp (c :: cs)
  | cs => .help (some (String.ofList cs))

/-- One digit or more, with at most a line feed behind them. -/
def isDigits (cs : List Char) : Bool :=
  match cs.dropWhile isDecimalDigit with
  | [] | ['\n'] => cs.head?.any isDecimalDigit
  | _ => false

/-- A minus sign and digits, among which there may be a decimal point that is not the last
character. -/
def isNegativeNumber : List Char → Bool
  | '-' :: cs =>
    isDigits cs ||
      match cs.dropWhile isDecimalDigit with
      | '.' :: fraction => isDigits fraction
      | _ => false
  | _ => false

/-- What a text is that begins with a dash and is no help option. -/
def other (cs : List Char) : Argument :=
  if isNegativeNumber cs || cs.contains ' ' then .positional else .unknown

/-- What an argument is by itself. -/
def classify (argument : String) : Argument :=
  match argument.toList with
  | ['-', '-'] => .separator
  | '-' :: '-' :: cs =>
    let (stem, value?) := splitEquals cs
    if stem.isPrefixOf "help".toList then .help (value?.map String.ofList)
    else other ('-' :: '-' :: cs)
  | ['-', 'h'] => .help none
  | '-' :: 'h' :: '=' :: value => shortHelp value
  | '-' :: 'h' :: cs => shortHelp cs
  | ['-'] => .positional
  | '-' :: cs => other ('-' :: cs)
  | _ => .positional

/-- Classify all arguments; nothing behind two dashes is an option. -/
def classifyAll : List String → List (String × Argument)
  | [] => []
  | argument :: arguments =>
    match classify argument with
    | .separator => (argument, .separator) :: arguments.map (·, .positional)
    | kind => (argument, kind) :: classifyAll arguments

end Argument

/-! ## All arguments -/

/-- What the arguments ask for. -/
inductive Request
  /-- Show the help text. -/
  | help
  /-- Refuse the arguments. -/
  | refuse (message : String)
  /-- Run a source file, or standard input. -/
  | run (source? : Option String)
deriving DecidableEq

namespace Request

/-- Go through the arguments.  The first that is no option is the source, and two dashes next to
it are dropped; whatever else there is, is left over.  The help option takes effect where it
stands. -/
def scan (source? : Option String) (leftOver : List String) :
    List (String × Argument) → Request
  | [] =>
    if leftOver = [] then .run source?
    else .refuse ("unrecognized arguments: " ++ " ".intercalate leftOver)
  | (_, .help none) :: _ => .help
  | (_, .help (some attached)) :: _ =>
    .refuse ("argument -h/--help: ignored explicit argument " ++ quoted attached)
  | (argument, .unknown) :: rest => scan source? (leftOver ++ [argument]) rest
  | (argument, .separator) :: rest =>
    match source? with
    | none => scan none leftOver rest
    | some source => scan (some source) (leftOver ++ [argument]) rest
  | (argument, .positional) :: rest =>
    match source?, rest with
    | none, (_, .separator) :: rest => scan (some argument) leftOver rest
    | none, rest => scan (some argument) leftOver rest
    | some source, rest => scan (some source) (leftOver ++ [argument]) rest

/-- What the arguments ask for. -/
def ofArguments (arguments : List String) : Request :=
  scan none [] (Argument.classifyAll arguments)

end Request

end LittleScheme.Console
