import LittleScheme.Datum.Parser
import LittleScheme.Store.Basic

/-!
# Data in the store

`build` makes the value of a datum out of new cells, one for each atom and each pair.  `readValue`
reads a source text into the store; when reading fails, the data that were complete by then have
been made all the same.
-/

namespace LittleScheme

/-- The node of an atom. -/
def Atom.node : Atom → Node
  | .integer value => .integer value
  | .boolean value => .boolean value
  | .symbol name => .symbol name

/-- Make the value of a datum. -/
def build : Datum → StoreM Ref
  | .nil => return .nil
  | .leaf atom => make atom.node
  | .pair first second => do
    let first ← build first
    let second ← build second
    make (.pair first second)

/-- Make the values of data, in order. -/
def buildAll : List Datum → StoreM (List Ref)
  | [] => return []
  | d :: ds => do
    let r ← build d
    let rs ← buildAll ds
    return r :: rs

/-- Make the data that were complete when reading failed, and stop. -/
def abandon {α : Type} (fault : Fault) (finished : List Datum) : StoreM α := do
  discard (buildAll finished)
  throw fault

/-- Make the datum of a parse, or the data that were complete when it failed. -/
def Parsed.commit : Parsed → StoreM Ref
  | .datum d _ => build d
  | .failed fault finished _ => abandon fault finished

/-- The stream behind a parse. -/
def Parsed.rest : Parsed → TokenStream
  | .datum _ rest => rest
  | .failed _ _ rest => rest

/-- Make the value of a source text that is exactly one datum; what is open at a time may cost at
most `limit`. -/
def readValue (limit : Nat) (source : String) : StoreM Ref :=
  match Datum.read limit source with
  | .ok d => build d
  | .error (fault, finished) => abandon fault finished

end LittleScheme
