import LittleScheme.Text.Quoted

/-!
# Paths

`WorkingDirectory.find` looks up a path, a sequence of names with slashes between them, in a tree of
directories.  It starts at the working directory, or at the root if the path begins with a slash.
An empty name or a dot stays where it is, two dots go up, and any other name is looked up as it
stands; a path that ends in a slash asks for a directory.  There are no links, and everything may be
read.  `PathFault.message` has the wording for a file that is not opened.
-/

namespace LittleScheme.Console

open Text

/-! ## Files and directories -/

/-- What a file holds. -/
abbrev Contents := ByteArray

/-- What a name in a directory stands for. -/
inductive Entry
  | file (contents : Contents)
  | directory (entries : List (String × Entry))

/-- The entries of a directory, under their names. -/
abbrev Directory := List (String × Entry)

/-- Why a file is not opened. -/
inductive PathFault
  /-- A name on the path is not there. -/
  | missing
  /-- The path leads to a directory. -/
  | isDirectory
  /-- The path goes on behind a file. -/
  | notDirectory
  /-- The path, or a name on it, is longer than any that there can be. -/
  | tooLong
  /-- The path holds the character with the code point zero. -/
  | zeroCharacter
deriving DecidableEq

/-- The wording for a path that is not opened. -/
def PathFault.message (path : String) : PathFault → String
  | .missing => "[Errno 2] No such file or directory: " ++ quoted path
  | .isDirectory => "[Errno 21] Is a directory: " ++ quoted path
  | .notDirectory => "[Errno 20] Not a directory: " ++ quoted path
  | .tooLong => "[Errno 36] File name too long: " ++ quoted path
  | .zeroCharacter => "embedded null byte"

/-! ## Following a path -/

/-- The most bytes of a path. -/
def pathLimit : Nat := 4095

/-- The most bytes of a name. -/
def nameLimit : Nat := 255

/-- The names on a path, where `name` is what has been read of the first, the last character
first. -/
def namesFrom (name : List Char) : List Char → List String
  | [] => [String.ofList name.reverse]
  | '/' :: cs => String.ofList name.reverse :: namesFrom [] cs
  | c :: cs => namesFrom (c :: name) cs

/-- Follow names from the directory `here`, around which there are the directories `around`, the
innermost first.  There is nothing above the root. -/
def follow (here : Directory) (around : List Directory) : List String → Except PathFault Contents
  | [] => .error .isDirectory
  | name :: names =>
    if name = "" ∨ name = "." then follow here around names
    else if name = ".." then
      match around with
      | [] => follow here [] names
      | outer :: around => follow outer around names
    else if nameLimit < name.utf8ByteSize then .error .tooLong
    else
      match here.lookup name with
      | none => .error .missing
      | some (.file contents) => if names = [] then .ok contents else .error .notDirectory
      | some (.directory entries) => follow entries (here :: around) names

/-- A directory, and the directories around it, the innermost first. -/
structure WorkingDirectory where
  entries : Directory
  around : List Directory := []

namespace WorkingDirectory

/-- The root of the tree. -/
def root (working : WorkingDirectory) : Directory :=
  working.around.getLast?.getD working.entries

/-- The file under a path. -/
def find (working : WorkingDirectory) (path : String) : Except PathFault Contents :=
  let cs := path.toList
  if cs.contains '\x00' then .error .zeroCharacter
  else if cs = [] then .error .missing
  else if pathLimit < path.utf8ByteSize then .error .tooLong
  else if cs.head? = some '/' then follow working.root [] (namesFrom [] cs)
  else follow working.entries working.around (namesFrom [] cs)

end WorkingDirectory

end LittleScheme.Console
