import WhitespaceAsm.Delivery
import WhitespaceAsm.Diagnostic
import WhitespaceAsm.Listing
import WhitespaceAsm.Sink
import WhitespaceAsm.Statement

/-! Assembling a source. Each line has an outcome of its own; a run carries the outcomes out in
order on a sink. -/
namespace WhitespaceAsm

inductive Outcome where
  /-- There is no statement in it. -/
  | blank
  | accepted (mnemonic : String) (row : Row) (warning : Option Diagnostic)
  | rejected (diagnostic : Diagnostic)
  deriving DecidableEq, Repr

namespace Outcome

def ofStatement (file : String) (number : Nat) (text : String) (statement : Statement) : Outcome :=
  match statement.program with
  | .ok program =>
    .accepted statement.mnemonic ⟨number, Text.trim text, program⟩
      (statement.lint?.map fun warning =>
        ⟨.warning, file, some number, some statement.span, warning.message⟩)
  | .error cause => .rejected ⟨.error, file, some number, some statement.span, cause.message⟩

def ofText (file : String) (number : Nat) (text : String) : Outcome :=
  match Statement.scan text with
  | .ok none => .blank
  | .ok (some statement) => ofStatement file number text statement
  | .error cause => .rejected ⟨.error, file, some number, some cause.span, cause.message⟩

/-- The outcome of a line as it was read. A line that is not UTF-8 is told like bad data. -/
def ofLine (file : String) (number : Nat) (line : Except Fault Bytes) : Outcome :=
  match line with
  | .ok content =>
    match Text.ofBytes? content with
    | some text => ofText file number text
    | none => .rejected ⟨.error, file, some number, none, Fault.invalidData.lineMessage⟩
  | .error fault => .rejected ⟨.error, file, some number, none, fault.lineMessage⟩

end Outcome

structure Source where
  name : String
  deliveries : List Delivery
  deriving DecidableEq, Repr

/-- The outcomes of all lines, numbered from one. -/
def Source.outcomes (source : Source) : List Outcome :=
  ((Delivery.lines source.deliveries).zipIdx 1).map fun (line, number) =>
    Outcome.ofLine source.name number line

/-- The state of a run: the sink, what was listed and diagnosed so far, and the fault of the write
that stopped it. -/
structure Run (σ : Type) where
  verbose : Bool
  sink : σ
  rows : Array Row := #[]
  diagnostics : Array Diagnostic := #[]
  fault : Option Fault := none

namespace Run

variable {σ : Type}

def note [Sink σ] (run : Run σ) (text : String) : Run σ :=
  if run.verbose then { run with sink := Sink.note run.sink text } else run

def tell (run : Run σ) (diagnostic : Diagnostic) : Run σ :=
  { run with diagnostics := run.diagnostics.push diagnostic }

def tellAny (run : Run σ) (diagnostic : Option Diagnostic) : Run σ :=
  match diagnostic with
  | some diagnostic => run.tell diagnostic
  | none => run

/-- Writes a row's program text. The row is listed once the write went through; otherwise the run
stops here. -/
def write [Sink σ] (run : Run σ) (row : Row) : Run σ :=
  match Sink.write run.sink (Text.bytes row.program) with
  | (sink, none) => { run with sink := sink, rows := run.rows.push row }
  | (sink, some fault) => { run with sink := sink, fault := some fault }

/-- Carries out the outcome of one line. A stopped run takes no notice of it. -/
def step [Sink σ] (file : String) (run : Run σ) (outcome : Outcome) : Run σ :=
  match run.fault, outcome with
  | some _, _ => run
  | none, .blank => run
  | none, .rejected diagnostic => run.tell diagnostic
  | none, .accepted mnemonic row warning =>
    ((run.note s!"{file}: {row.number}: {mnemonic} -> {visible row.program}").tellAny warning).write
      row

def assembleSource [Sink σ] (run : Run σ) (source : Source) : Run σ :=
  match run.fault with
  | some _ => run
  | none =>
    source.outcomes.foldl (step source.name) (run.note s!"{source.name}: Assembling file...")

end Run

end WhitespaceAsm
