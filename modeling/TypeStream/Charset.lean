import TypeStream.Charset.Utf8
import TypeStream.Text.Vocabulary

/-! # Character sets of names

The bytes of a name are text in one of three character sets.  Decoding never fails: what a
character set cannot express becomes U+FFFD.  `encode?` is the way back where there is one. -/

namespace TypeStream

/-- How the bytes of a name are read. -/
inductive Charset
  /-- Every byte is the code point of that number. -/
  | latin1
  /-- Bytes below `0x80` are code points, all others are replaced. -/
  | ascii
  /-- UTF-8, ill-formed pieces being replaced. -/
  | utf8
deriving DecidableEq, Repr

namespace Charset

/-- The name shown for a character set. -/
def name : Charset → String
  | latin1 => "latin1"
  | ascii => "ascii"
  | utf8 => "utf8"

/-- The spellings of the character sets. -/
def vocabulary : Text.Vocabulary Charset where
  noun := "charset"
  choices := "'latin1', 'ascii', or 'utf8'"
  words :=
    [("latin1", latin1), ("latin-1", latin1), ("iso-8859-1", latin1),
     ("ascii", ascii), ("us-ascii", ascii),
     ("utf8", utf8), ("utf-8", utf8)]

/-- The code point of a byte below `0x80`, and a replacement for any other. -/
def asciiChar (b : UInt8) : Char :=
  if b.toNat < 0x80 then Char.ofNat b.toNat else Utf8.replacement

/-- The characters that the bytes stand for. -/
def chars : Charset → List UInt8 → List Char
  | latin1, bytes => bytes.map fun b => Char.ofNat b.toNat
  | ascii, bytes => bytes.map asciiChar
  | utf8, bytes => Utf8.decode bytes

/-- The text that the bytes stand for. -/
def decode (charset : Charset) (bytes : List UInt8) : String :=
  String.ofList (charset.chars bytes)

/-- The bytes of one character, if the character set has it. -/
def encodeChar? : Charset → Char → Option (List UInt8)
  | latin1, c => if c.toNat < 0x100 then some [UInt8.ofNat c.toNat] else none
  | ascii, c => if c.toNat < 0x80 then some [UInt8.ofNat c.toNat] else none
  | utf8, c => some (String.utf8EncodeChar c)

/-- The bytes of a text, if the character set has all its characters. -/
def encode? (charset : Charset) (text : String) : Option (List UInt8) :=
  (text.toList.mapM charset.encodeChar?).map List.flatten

@[simp] theorem toList_decode (charset : Charset) (bytes : List UInt8) :
    (charset.decode bytes).toList = charset.chars bytes := by
  simp [decode]

end Charset

end TypeStream
