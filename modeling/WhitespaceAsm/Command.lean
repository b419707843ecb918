import WhitespaceAsm.Pseudo

/-! Commands: a mnemonic and its parameter text. -/
namespace WhitespaceAsm

inductive Instruction where
  | primitive (opcode : Opcode)
  | pseudo (shorthand : Pseudo)
  deriving DecidableEq, Repr

namespace Instruction

def all : List Instruction := Opcode.all.map primitive ++ Pseudo.all.map pseudo

def mnemonic : Instruction → String
  | .primitive opcode => opcode.mnemonic
  | .pseudo shorthand => shorthand.mnemonic

/-- The instruction with this mnemonic; case matters. -/
def ofMnemonic? (mnemonic : String) : Option Instruction :=
  all.find? fun instruction => instruction.mnemonic == mnemonic

def mnemonics : List String := (all.map mnemonic).mergeSort fun a b => decide (a ≤ b)

end Instruction

structure Command where
  mnemonic : String
  parameter : String
  deriving DecidableEq, Repr

namespace Command

/-- Writes a command at the end of the program text, or fails and leaves the text as it is. -/
def emit (command : Command) : Emission Unit :=
  match Instruction.ofMnemonic? command.mnemonic with
  | some (.primitive opcode) => opcode.emit command.parameter
  | some (.pseudo shorthand) => shorthand.emit command.parameter
  | none => throw (.unknownMnemonic command.mnemonic)

/-- The program text of a command on its own. -/
def program (command : Command) : Except CommandError String :=
  match command.emit.onto "" with
  | (.ok (), text) => .ok text
  | (.error cause, _) => .error cause

def lint? (command : Command) : Option Warning :=
  match Instruction.ofMnemonic? command.mnemonic with
  | some (.pseudo shorthand) => shorthand.lint? command.parameter
  | _ => none

end Command

end WhitespaceAsm
