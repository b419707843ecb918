import WhitespaceAsm.Emission

/-! Pseudo-instructions, which stand for several primitive instructions or for one with a parameter
that is easier to write: characters, texts and named labels. A name is written as a `0b` literal.
Nothing separates its characters there, so different names may share a literal. -/
namespace WhitespaceAsm

namespace Label

/-- The digits of a name, each character's code without leading zeros. -/
def digits (name : List Char) : List Bool := name.flatMap fun c => binaryDigits c.toNat

def literal (name : String) : String :=
  "0b" ++ String.ofList ((digits name.toList).map fun digit => if digit then '1' else '0')

end Label

inductive Pseudo where
  | pushChar
  | printText
  | printLine
  | markNamed
  | jumpNamed
  | callNamed
  | jumpNamedIfZero
  | jumpNamedIfNegative
  deriving DecidableEq, Repr

inductive Warning where
  | extraCharacters (parameter : String)
  deriving DecidableEq, Repr

def Warning.message : Warning → String
  | .extraCharacters parameter => s!"Only the first character of `{parameter}` is pushed."

namespace Pseudo

def all : List Pseudo :=
  [pushChar, printText, printLine, markNamed, jumpNamed, callNamed, jumpNamedIfZero,
    jumpNamedIfNegative]

def mnemonic : Pseudo → String
  | pushChar => "pushchar"
  | printText => "print"
  | printLine => "println"
  | markNamed => "marks"
  | jumpNamed => "jumps"
  | callNamed => "calls"
  | jumpNamedIfZero => "branchzs"
  | jumpNamedIfNegative => "branchltzs"

def emitPushChar (text : List Char) : Emission Unit :=
  match text with
  | c :: _ => Opcode.push.emit (toString c.toNat)
  | [] => throw (.missingParameter pushChar.mnemonic)

def emitPrint : List Char → Emission Unit
  | [] => pure ()
  | c :: rest => do
    Emission.whole (emitPushChar [c])
    Opcode.printChar.emit ""
    emitPrint rest

def emitPrintLine (text : List Char) : Emission Unit := do
  Emission.whole (emitPrint text)
  Opcode.push.emit "0x0A"
  Opcode.printChar.emit ""

/-- An instruction that takes a label, with the name's literal in place of a number. -/
def emitNamed (pseudo : Pseudo) (opcode : Opcode) (name : String) : Emission Unit :=
  let name := Text.trim name
  if name.isEmpty then throw (.missingParameter pseudo.mnemonic)
  else opcode.emit (Label.literal name)

def expand (pseudo : Pseudo) (parameter : String) : Emission Unit :=
  match pseudo with
  | pushChar => emitPushChar parameter.toList
  | printText => emitPrint parameter.toList
  | printLine => emitPrintLine parameter.toList
  | markNamed => emitNamed markNamed .mark parameter
  | jumpNamed => emitNamed jumpNamed .jump parameter
  | callNamed => emitNamed callNamed .call parameter
  | jumpNamedIfZero => emitNamed jumpNamedIfZero .jumpIfZero parameter
  | jumpNamedIfNegative => emitNamed jumpNamedIfNegative .jumpIfNegative parameter

/-- Emits a pseudo-instruction as a whole or not at all. -/
def emit (pseudo : Pseudo) (parameter : String) : Emission Unit :=
  Emission.whole (pseudo.expand parameter)

def isLinted : Pseudo → Bool
  | pushChar => true
  | _ => false

/-- More than one character is suspicious where only the first one counts. -/
def lint? (pseudo : Pseudo) (parameter : String) : Option Warning :=
  if pseudo.isLinted && 1 < parameter.length then some (.extraCharacters parameter) else none

end Pseudo

end WhitespaceAsm
