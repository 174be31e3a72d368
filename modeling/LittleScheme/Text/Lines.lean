/-!
# Lines

A text as a sequence of lines.  A line feed, a carriage return, or the two in sequence end a line;
the last line of a text need not be ended.  `endedLines` are the lines of a text of which only the
beginning is known.
-/

namespace LittleScheme.Text

/-- The lines of a text, without their ends, where `line` is what has been read of the first, the
last character first. -/
def linesFrom (line : List Char) : List Char → List String
  | [] => if line = [] then [] else [String.ofList line.reverse]
  | '\r' :: '\n' :: cs => String.ofList line.reverse :: linesFrom [] cs
  | '\r' :: cs => String.ofList line.reverse :: linesFrom [] cs
  | '\n' :: cs => String.ofList line.reverse :: linesFrom [] cs
  | c :: cs => linesFrom (c :: line) cs

/-- The lines of a text. -/
def lines (text : String) : List String := linesFrom [] text.toList

/-- A character that ends a line. -/
def endsLine (c : Char) : Bool := c == '\n' || c == '\r'

/-- The part of a text, given with its last character first, up to its last end of a line.  A
carriage return that comes last is left out, since a line feed may come behind it. -/
def endedPart : List Char → List Char
  | '\r' :: cs => cs.dropWhile (!endsLine ·)
  | cs => cs.dropWhile (!endsLine ·)

/-- The lines that are ended in a text that may go on. -/
def endedLines (text : String) : List String :=
  linesFrom [] (endedPart text.toList.reverse).reverse

end LittleScheme.Text
