/-! Texts as bytes and as characters. Everything outside the assembler holds bytes; texts are written in
UTF-8. Blanks are the characters with the Unicode property White_Space, and texts are trimmed by them. -/
namespace WhitespaceAsm

abbrev Bytes := List UInt8

namespace Text

def encoded (cs : List Char) : Bytes := cs.flatMap String.utf8EncodeChar

def bytes (text : String) : Bytes := encoded text.toList

/-- The text with these bytes, if they are UTF-8 from the first to the last. -/
def ofBytes? (content : Bytes) : Option String := String.fromUTF8? content.toByteArray

def width (cs : List Char) : Nat := cs.foldr (fun c size => c.utf8Size + size) 0

/-- Neither the separators U+001C to U+001F nor the zero-width characters U+200B and U+FEFF are
blanks. -/
def isBlank (c : Char) : Bool :=
  let code := c.toNat
  (0x09 ≤ code && code ≤ 0x0D) || code == 0x20 || code == 0x85 || code == 0xA0 || code == 0x1680 ||
    (0x2000 ≤ code && code ≤ 0x200A) || code == 0x2028 || code == 0x2029 || code == 0x202F ||
    code == 0x205F || code == 0x3000

def trimmed (cs : List Char) : List Char :=
  ((cs.dropWhile isBlank).reverse.dropWhile isBlank).reverse

def trim (text : String) : String := String.ofList (trimmed text.toList)

end Text

end WhitespaceAsm
