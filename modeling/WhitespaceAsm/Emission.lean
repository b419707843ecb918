import WhitespaceAsm.Opcode
import WhitespaceAsm.Parameter

/-! Emission: writing instructions at the end of a program text. An emission that fails still hands
the text on, so what a failure leaves behind is part of its meaning. -/
namespace WhitespaceAsm

inductive CommandError where
  | unknownMnemonic (mnemonic : String)
  | missingParameter (mnemonic : String)
  | malformedParameter (mnemonic : String) (flaw : Parameter.Flaw)
  deriving DecidableEq, Repr

def CommandError.malformedMessage (mnemonic reason : String) : String :=
  s!"Bad parameter for `{mnemonic}`: {reason}."

def CommandError.message : CommandError → String
  | .unknownMnemonic mnemonic => s!"Unknown instruction `{mnemonic}`."
  | .missingParameter mnemonic => s!"`{mnemonic}` needs a parameter."
  | .malformedParameter mnemonic flaw => malformedMessage mnemonic flaw.reason

/-- A computation that adds to a program text and may fail. -/
abbrev Emission := ExceptT CommandError (StateM String)

namespace Emission

/-- Runs an emission on a text: how it ends, and the text after it. -/
def onto (emission : Emission Unit) (text : String) : Except CommandError Unit × String :=
  emission.run.run text

def append (text : String) : Emission Unit := modify (· ++ text)

/-- Runs an emission on an empty text and appends the whole of its work, or nothing if it fails. -/
def whole (emission : Emission Unit) : Emission Unit :=
  match emission.onto "" with
  | (.ok (), text) => append text
  | (.error cause, _) => throw cause

end Emission

structure Form where
  mnemonic : String
  code : String
  takesParameter : Bool
  deriving DecidableEq, Repr

/-- Writes the code and, if there has to be one, the parameter. The parameter is encoded before
anything is written; where none is taken its text is ignored. -/
def Form.emit (form : Form) (parameter : String) : Emission Unit :=
  if form.takesParameter then
    match Parameter.encode parameter with
    | .ok tokens => Emission.append (form.code ++ Token.text tokens)
    | .error .missing => throw (.missingParameter form.mnemonic)
    | .error (.malformed flaw) => throw (.malformedParameter form.mnemonic flaw)
  else
    Emission.append form.code

def Opcode.form (opcode : Opcode) : Form :=
  ⟨opcode.mnemonic, Token.text opcode.code, opcode.takesParameter⟩

def Opcode.emit (opcode : Opcode) (parameter : String) : Emission Unit :=
  opcode.form.emit parameter

end WhitespaceAsm
