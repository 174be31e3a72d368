import LittleScheme.Evaluation.Evaluate
import LittleScheme.Settings
import LittleScheme.Store.Build
import LittleScheme.Store.Collect
import LittleScheme.Store.Picture

/-!
# Sessions

A session is a store with a global frame in it, from which collections start.  Each line is read,
evaluated and printed; after a line that succeeds the store is collected, after one that fails
only if the session is set so.

## Main definitions

* `Session` — the state of a session.
* `Session.start` — a session with the operators bound in its global frame.
* `Session.run` — read, evaluate and print one line.
* `Session.execute` — the same, with errors of the program as outcomes.
* `Session.answer`, `Session.serve` — input lines to output lines.
-/

namespace LittleScheme

open Text

/-! ## The state of a session -/

/-- What a session has to say about its own work. -/
inductive Notice
  /-- A collection found `dead` values and left `live` registered. -/
  | collected (dead live : Nat)
  /-- A line failed. -/
  | failed (line : String) (error : Error)
deriving DecidableEq

/-- The state of a session. -/
structure Session where
  store : Store
  /-- The global frame. -/
  globals : Loc
  /-- Collect after a failure too. -/
  collectOnError : Bool
  /-- The recursion limit in force. -/
  limit : Nat
  /-- What the session had to say so far, the latest first. -/
  journal : List Notice := []
deriving DecidableEq

/-- Computations on a session. -/
abbrev SessionM := EStateM Fault Session

/-- Make the operators and bind them in a frame. -/
def installOperators (env : Loc) : List Op → StoreM Unit
  | [] => return ()
  | op :: ops => do
    let r ← make (.builtin op)
    define env op.name r
    installOperators env ops

/-- Make the global frame. -/
def makeGlobals : StoreM Loc := do
  let env ← allocate (.environment {})
  installOperators env Op.all
  return env

namespace Session

/-- A new session. -/
def start (collectOnError : Bool) (limit : Nat) : Session :=
  match makeGlobals {} with
  | .ok globals store => { store, globals, collectOnError, limit }
  | .error _ store => { store, globals := 0, collectOnError, limit }

/-- A new session as the variables set it, unless told otherwise, where `current` is the recursion
limit in force. -/
def configured (vars : Settings.Variables) (current : Nat)
    (collectOnError? : Option Bool) : Except SettingFault Session := do
  let collectOnError := collectOnError?.getD (Settings.collectOnError vars)
  let wanted ← Settings.recursionLimit vars
  let limit ← Settings.raiseLimit current wanted
  return start collectOnError limit.toNat

/-- How deep copying and printing may go into nested data. -/
def depth (session : Session) : Nat := session.limit / 2

/-- Write a notice into the journal. -/
def note (session : Session) (notice : Notice) : Session :=
  { session with journal := notice :: session.journal }

/-- The names of the global frame. -/
def globalNames (session : Session) : String :=
  (session.store.frame? session.globals).elim "" Frame.brief

/-! ## Steps of a session -/

/-- A computation on the store of the session. -/
def onStore {α : Type} (action : StoreM α) : SessionM α :=
  fun ⟨store, globals, collectOnError, limit, journal⟩ =>
    match action store with
    | .ok a store => .ok a ⟨store, globals, collectOnError, limit, journal⟩
    | .error fault store => .error fault ⟨store, globals, collectOnError, limit, journal⟩

/-- Collect from the global frame; the result is the number of values found dead. -/
def collect : SessionM Nat :=
  fun ⟨store, globals, collectOnError, limit, journal⟩ =>
    let (dead, store) := store.collect (.cell globals)
    let notice := Notice.collected dead store.live
    .ok dead ⟨store, globals, collectOnError, limit, notice :: journal⟩

/-- Strike all values from the register; the session can go on. -/
def close : SessionM Unit := onStore (modify Store.clear)

/-- After a failure, collect if the session is set so. -/
def afterFailure : SessionM Unit := do
  if (← get).collectOnError then discard collect

/-- A computation on the store that is part of a line.  A depth that is used up becomes the error
`deep`; errors of the program are followed by what the session does after a failure. -/
def attempt {α : Type} (deep : Error) (action : StoreM α) : SessionM α :=
  fun session =>
    match onStore action session with
    | .ok a session => .ok a session
    | .error .tooDeep session => (do afterFailure; throw (.error deep) : SessionM α) session
    | .error (.error e) session => (do afterFailure; throw (.error e) : SessionM α) session
    | .error fault session => .error fault session

/-- Evaluate an expression in the global frame, within a budget, and print its value. -/
def valueText (budget depth : Nat) (globals : Loc) (expr : Ref) : StoreM String := do
  let value ← evaluate budget expr globals
  let s ← get
  match s.render depth value with
  | .ok text => return text
  | .error fault => throw fault

/-- Evaluate an expression, print its value, and collect. -/
def runExpression (expr : Ref) : SessionM String := do
  let session ← get
  let text ← attempt .recursionTooDeep
    (valueText session.limit session.depth session.globals expr)
  discard collect
  return text

/-- Read, evaluate and print one line. -/
def run (line : String) : SessionM String := do
  let session ← get
  let expr ← attempt .nestingTooDeep (readValue session.limit line)
  runExpression expr

/-! ## Outcomes -/

end Session

/-- What a line comes to: a printed value, or an error of the program. -/
inductive Outcome
  | value (text : String)
  | failed (error : Error)
deriving DecidableEq

/-- The line that is written for an outcome. -/
def Outcome.text : Outcome → String
  | .value text => text
  | .failed e => e.report

namespace Session

/-- Run one line, with errors of the program as outcomes. -/
def execute (line : String) : SessionM Outcome :=
  fun session =>
    match run line session with
    | .ok text session => .ok (.value text) session
    | .error (.error e) session => .ok (.failed e) (session.note (.failed line e))
    | .error fault session => .error fault session

/-- The line without the line feeds at its end. -/
def withoutLineFeeds (line : String) : String :=
  String.ofList (line.toList.reverse.dropWhile (· == '\n')).reverse

/-- The output for one input line: nothing for a blank one, one line for any other. -/
def answer (line : String) : SessionM String := do
  let line := withoutLineFeeds line
  if allBlank line.toList then return ""
  else
    let outcome ← execute line
    return outcome.text ++ "\n"

/-- The output for a sequence of input lines, and the fault that cut it short, if one did. -/
def serve (session : Session) : List String → String × Option Fault × Session
  | [] => ("", none, session)
  | line :: lines =>
    match answer line session with
    | .ok text session =>
      let (rest, fault?, session) := session.serve lines
      (text ++ rest, fault?, session)
    | .error fault session => ("", some fault, session)

end Session

end LittleScheme
