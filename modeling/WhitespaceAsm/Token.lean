/-! The three tokens that Whitespace programs are made of. -/
namespace WhitespaceAsm

inductive Token where
  | space
  | tab
  | lineFeed
  deriving DecidableEq, Repr

namespace Token

def char : Token → Char
  | space => ' '
  | tab => '\t'
  | lineFeed => '\n'

def ofBit (bit : Bool) : Token := if bit then tab else space

def text (tokens : List Token) : String := String.ofList (tokens.map char)

end Token

/-- Program text made readable: space, tab and line feed become `S`, `T` and `L`, and any other
character stays. -/
def visible (text : String) : String :=
  String.ofList (text.toList.map fun
    | ' ' => 'S'
    | '\t' => 'T'
    | '\n' => 'L'
    | c => c)

end WhitespaceAsm
