/-! Numerals. Signed ones in decimal and hexadecimal are read into the range of 32-bit integers, and
magnitudes are written in binary. -/
namespace WhitespaceAsm

/-- The binary digits of a number, most significant first. Zero has one digit, every other
number starts with a one. -/
def binaryDigits (n : Nat) : List Bool :=
  if n < 2 then [n == 1] else binaryDigits (n / 2) ++ [n % 2 == 1]

inductive Radix where
  | decimal
  | hexadecimal
  deriving DecidableEq, Repr

def Radix.base : Radix → Nat
  | .decimal => 10
  | .hexadecimal => 16

def Radix.name : Radix → String
  | .decimal => "decimal"
  | .hexadecimal => "hexadecimal"

def digitValue? (c : Char) : Option Nat :=
  if '0' ≤ c ∧ c ≤ '9' then some (c.toNat - '0'.toNat)
  else if 'a' ≤ c ∧ c ≤ 'f' then some (c.toNat - 'a'.toNat + 10)
  else if 'A' ≤ c ∧ c ≤ 'F' then some (c.toNat - 'A'.toNat + 10)
  else none

def Radix.digit? (radix : Radix) (c : Char) : Option Nat :=
  (digitValue? c).filter (· < radix.base)

namespace Numeral

inductive Error where
  /-- There is no digit, or a character that is none. -/
  | invalid
  /-- The digits so far leave the 32-bit range. -/
  | outOfRange
  deriving DecidableEq, Repr

def InRange (value : Int) : Prop := -2147483648 ≤ value ∧ value ≤ 2147483647

instance (value : Int) : Decidable (InRange value) := inferInstanceAs (Decidable (_ ∧ _))

/-- A value with one more digit at its end. Below zero, digits count downward. -/
def push (radix : Radix) (negative : Bool) (value : Int) (digit : Nat) : Int :=
  value * radix.base + (if negative then -(digit : Int) else digit)

/-- Reads digits from left to right, and stops at the first that is no digit or that leaves
the range: so `2147483648x` is out of range and `214748364x` is invalid. -/
def readDigits (radix : Radix) (negative : Bool) (value : Int) : List Char → Except Error Int
  | [] => .ok value
  | c :: rest =>
    match radix.digit? c with
    | none => .error .invalid
    | some digit =>
      let next := push radix negative value digit
      if InRange next then readDigits radix negative next rest else .error .outOfRange

def splitSign : List Char → Bool × List Char
  | '+' :: rest => (false, rest)
  | '-' :: rest => (true, rest)
  | cs => (false, cs)

def read (radix : Radix) (cs : List Char) : Except Error Int :=
  match splitSign cs with
  | (_, []) => .error .invalid
  | (negative, digits) => readDigits radix negative 0 digits

end Numeral

end WhitespaceAsm
