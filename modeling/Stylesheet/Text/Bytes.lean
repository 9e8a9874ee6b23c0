/-!
# Bytes and text

Bytes are shown as the characters of their numbers.  A text is written as bytes
in UTF-8, and bytes are read back as a text; a byte that belongs to no character
is read as the replacement character.
-/

namespace Stylesheet

/-- A byte as the character of that number. -/
def byteChar (b : UInt8) : Char :=
  Char.ofNat b.toNat

namespace Text

/-- The bytes of a character. -/
def charBytes (c : Char) : List Char :=
  (String.utf8EncodeChar c).map byteChar

/-- The number of the character whose bytes stand at the front, if there is one.
Its first byte says how many more there are, and each of those holds six
bits. -/
def frontCode : List Char → Nat
  | [] => 0
  | b :: rest =>
      let after (lead count : Nat) : Nat :=
        (rest.take count).foldl
          (fun code b => 64 * code + (b.toNat - 0x80)) (b.toNat - lead)
      if b.toNat < 0x80 then b.toNat
      else if b.toNat < 0xE0 then after 0xC0 1
      else if b.toNat < 0xF0 then after 0xE0 2
      else after 0xF0 3

/-- The character whose bytes stand at the front. -/
def frontChar? (bytes : List Char) : Option Char :=
  let c := Char.ofNat (frontCode bytes)
  if (charBytes c).isPrefixOf bytes then some c else none

/-- What stands for a byte that belongs to no character. -/
def replacement : Char := '�'

/-- The characters of bytes, of which the first `pending` belong to a character
before them. -/
def charsAfter : Nat → List Char → List Char
  | _, [] => []
  | pending + 1, _ :: bytes => charsAfter pending bytes
  | 0, b :: bytes =>
      match frontChar? (b :: bytes) with
      | some c => c :: charsAfter ((charBytes c).length - 1) bytes
      | none => replacement :: charsAfter 0 bytes

end Text

/-- The bytes of a text. -/
def bytesOf (text : String) : List Char :=
  text.toList.flatMap Text.charBytes

/-- The text of bytes. -/
def textOf (bytes : List Char) : String :=
  String.ofList (Text.charsAfter 0 bytes)

/-- Whether bytes are those of a text. -/
def isText (bytes : List Char) : Bool :=
  bytesOf (textOf bytes) = bytes

end Stylesheet
