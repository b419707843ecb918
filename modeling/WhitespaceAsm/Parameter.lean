import WhitespaceAsm.Numeral
import WhitespaceAsm.Text
import WhitespaceAsm.Token

/-! Parameters. A parameter is written as a run of spaces and tabs, ended by a line feed. Its text
is a number, which is given a sign token and binary digits, or a `0b` literal, which spells out
the run itself. -/
namespace WhitespaceAsm.Parameter

inductive Flaw where
  | noDigits
  | badDigit (body : String) (digit : Char)
  | outOfRange (radix : Radix) (text : String)
  | notANumber (radix : Radix) (text : String)
  deriving DecidableEq, Repr

def Flaw.reason : Flaw → String
  | .noDigits => "binary literal `0b` has no digits"
  | .badDigit body digit => s!"binary literal `0b{body}` contains `{digit}`"
  | .outOfRange radix text => s!"{radix.name} number `{text}` doesn't fit in 32 bits"
  | .notANumber radix text => s!"`{text}` isn't a valid {radix.name} number"

inductive Error where
  | missing
  | malformed (flaw : Flaw)
  deriving DecidableEq, Repr

def Error.message : Error → String
  | .missing => "no parameter given"
  | .malformed flaw => flaw.reason

/-- A run of binary digits as tokens, with its line feed. -/
def run (digits : List Bool) : List Token := digits.map Token.ofBit ++ [.lineFeed]

def signedDigits (value : Int) : List Bool := decide (value < 0) :: binaryDigits value.natAbs

/-- The digits of a `0b` literal, or the leftmost character that is none. -/
def literalDigits : List Char → Except Char (List Bool)
  | [] => .ok []
  | '0' :: rest => (literalDigits rest).map (false :: ·)
  | '1' :: rest => (literalDigits rest).map (true :: ·)
  | c :: _ => .error c

def encodeLiteral (body : List Char) : Except Error (List Token) :=
  match body with
  | [] => .error (.malformed .noDigits)
  | _ :: _ =>
    match literalDigits body with
    | .ok digits => .ok (run digits)
    | .error digit => .error (.malformed (.badDigit (String.ofList body) digit))

/-- The numeral `digits`; a failure names the whole parameter text. -/
def encodeNumber (radix : Radix) (digits text : List Char) : Except Error (List Token) :=
  match Numeral.read radix digits with
  | .ok value => .ok (run (signedDigits value))
  | .error .invalid => .error (.malformed (.notANumber radix (String.ofList text)))
  | .error .outOfRange => .error (.malformed (.outOfRange radix (String.ofList text)))

def encodeTrimmed : List Char → Except Error (List Token)
  | [] => .error .missing
  | '0' :: 'b' :: body => encodeLiteral body
  | '0' :: 'x' :: digits => encodeNumber .hexadecimal digits ('0' :: 'x' :: digits)
  | text => encodeNumber .decimal text text

def encode (text : String) : Except Error (List Token) := encodeTrimmed (Text.trimmed text.toList)

end WhitespaceAsm.Parameter
