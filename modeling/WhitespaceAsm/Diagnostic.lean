import WhitespaceAsm.Lexeme

/-! Diagnostics: what is told about the sources and files of a run. -/
namespace WhitespaceAsm

inductive Severity where
  | warning
  | error
  deriving DecidableEq, Repr

def Severity.label : Severity → String
  | .warning => "WARN"
  | .error => "ERR"

structure Diagnostic where
  severity : Severity
  file : String
  line : Option Nat
  span : Option Span
  message : String
  deriving DecidableEq, Repr

namespace Diagnostic

def isError (diagnostic : Diagnostic) : Bool := diagnostic.severity == .error

def ofFile (file message : String) : Diagnostic := ⟨.error, file, none, none, message⟩

/-- A diagnostic as it is printed. A span is shown only within a line. -/
def render (diagnostic : Diagnostic) : String :=
  let label := diagnostic.severity.label
  let file := diagnostic.file
  let message := diagnostic.message
  match diagnostic.line, diagnostic.span with
  | some line, some span => s!"{label}: {file}: {line}: {span.start}..{span.stop}: {message}"
  | some line, none => s!"{label}: {file}: {line}: {message}"
  | none, _ => s!"{label}: {file}: {message}"

end Diagnostic

end WhitespaceAsm
