import ExportKit.Text.Base64
import ExportKit.Text.Utf8

/-!
Header values. A value of printable ASCII stands as it is; any other is written as encoded words,
each of whole characters and at most 45 bytes, on lines of their own that a space marks as
continued.
-/
namespace ExportKit.Mail.Header

/-- Whether a character may stand in a header as it is: printable ASCII, the space included. -/
def isPlain (c : Char) : Bool := 32 ≤ c.toNat && c.toNat < 127

def needsEncoding (text : List Char) : Bool := text.any fun c => !isPlain c

/-- The most bytes that one encoded word carries, so that it stays within 75 characters. -/
def wordBytes : Nat := 45

/-- The text `text`, of which `taken` of `size` bytes precede in the same piece, in pieces of at
most `wordBytes` bytes, each as long as it can be. -/
def piecesFrom (taken : List Char) (size : Nat) : List Char → List (List Char)
  | [] => if taken = [] then [] else [taken]
  | c :: rest =>
    if size + c.utf8Size > wordBytes then taken :: piecesFrom [c] c.utf8Size rest
    else piecesFrom (taken ++ [c]) (size + c.utf8Size) rest

/-- A text in pieces that each fit in an encoded word. -/
def pieces (text : List Char) : List (List Char) := piecesFrom [] 0 text

def wordOpening : List Char := "=?utf-8?b?".toList

def wordClosing : List Char := "?=".toList

def word (piece : List Char) : List Char :=
  wordOpening ++ Base64.encode (Utf8.encode piece) ++ wordClosing

/-- A line break within a header value. -/
def fold : List Char := ['\n', ' ']

/-- The encoded words of a text, each but the first on a line of its own. -/
def encodeWords (text : List Char) : List Char :=
  fold.intercalate ((pieces text).map word)

def encode (text : List Char) : List Char :=
  if needsEncoding text then encodeWords text else text

end ExportKit.Mail.Header
