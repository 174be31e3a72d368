import LittleScheme.Text.Lines

/-!
# Encoded text

`decode` turns bytes in the encoding UTF-8 into text, piece by piece.  A piece may end within a
character: the bytes of that character are kept and put in front of the next piece.  A piece that is
not text in any other way is refused as a whole, and what came before it stands.
-/

namespace LittleScheme.Text

/-! ## Characters without their ends -/

/-- A byte behind the first of a character. -/
def isContinuation (b : UInt8) : Bool := 0x80 ≤ b && b < 0xC0

/-- The byte `b` may come second in a character that begins with the byte `a`.  Characters are
encoded as short as they can be, and none lies above the last code point; whether a code point
stands for a character at all is not asked before its last byte is there. -/
def isSecond (a b : UInt8) : Bool :=
  isContinuation b && !(a == 0xE0 && b < 0xA0) && !(a == 0xF0 && b < 0x90) &&
    !(a == 0xF4 && 0x90 ≤ b)

/-- The bytes begin a character and do not finish it.  No bytes at all do so, too. -/
def isBeginning : List UInt8 → Bool
  | [] => true
  | [a] => 0xC2 ≤ a && a ≤ 0xF4
  | [a, b] => 0xE0 ≤ a && a ≤ 0xF4 && isSecond a b
  | [a, b, c] => 0xF0 ≤ a && a ≤ 0xF4 && isSecond a b && isContinuation c
  | _ => false

/-! ## Pieces -/

/-- The text of a piece, and the bytes at its end that begin a character. -/
def decodePiece (piece : ByteArray) : Option (String × ByteArray) :=
  [0, 1, 2, 3].findSome? fun n =>
    let rest := piece.extract (piece.size - n) piece.size
    if isBeginning rest.data.toList then
      (String.fromUTF8? (piece.extract 0 (piece.size - n))).map (·, rest)
    else none

/-- The number of bytes in a piece, if there are as many left. -/
def pieceSize : Nat := 8192

/-- The pieces of a sequence of bytes. -/
def pieces (bytes : ByteArray) : List ByteArray :=
  (List.range ((bytes.size + pieceSize - 1) / pieceSize)).map fun i =>
    bytes.extract (pieceSize * i) (pieceSize * (i + 1))

/-! ## Decoding -/

/-- What is decoded of a sequence of bytes. -/
structure Decoded where
  /-- The text of the bytes, or of the pieces in front of one that is refused. -/
  text : String
  /-- The text is that of all the bytes. -/
  isWhole : Bool
deriving DecidableEq

/-- Decode pieces, where `text` is the text in front of them and `kept` are the bytes that have
been left. -/
def decodePieces (text : String) (kept : ByteArray) : List ByteArray → Decoded
  | [] => { text, isWhole := kept.isEmpty }
  | piece :: rest =>
    match decodePiece (kept ++ piece) with
    | none => { text, isWhole := false }
    | some (more, kept) => decodePieces (text ++ more) kept rest

/-- The text of a sequence of bytes, as far as it can be decoded. -/
def decode (bytes : ByteArray) : Decoded := decodePieces "" .empty (pieces bytes)

/-- The lines that can be read: a line that is not ended is one only where the text ends. -/
def Decoded.lines (decoded : Decoded) : List String :=
  if decoded.isWhole then Text.lines decoded.text else endedLines decoded.text

end LittleScheme.Text
