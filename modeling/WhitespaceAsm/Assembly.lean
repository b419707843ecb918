import WhitespaceAsm.Outlet
import WhitespaceAsm.Source

/-! Assembling files into one program. The output is opened before any input, and the listing is
written last, so each sees what the ones before it did to the files. An input has to come to an end:
what an assembly does with a directory, or with a device that never runs out of bytes, is not said. -/
namespace WhitespaceAsm

/-- What to assemble, and to where. Without an output path the program goes to standard output;
without inputs standard input is read. -/
structure Options where
  verbose : Bool
  output : Option String
  listing : Option String
  inputs : List String
  deriving DecidableEq, Repr

namespace Assembly

def standardInputName : String := "<stdin>"

def standardOutputName : String := "<stdout>"

def start (options : Options) (world : World) : Run Outlet :=
  { verbose := options.verbose, sink := ⟨world, .standard⟩ : Run Outlet }.note
    s!"Loaded {Instruction.all.length} instructions."

def openOutlet (output : Option String) (world : World) : Except Fault Outlet :=
  match output with
  | none => .ok ⟨world, .standard⟩
  | some path => (world.create path).map fun (opened, location) => ⟨opened, .file location .empty⟩

/-- Assembles one input file. One that cannot be opened is told and left out. -/
def addInput (run : Run Outlet) (path : String) : Run Outlet :=
  match run.fault with
  | some _ => run
  | none =>
    match run.sink.world.read path with
    | .ok content => run.assembleSource ⟨path, [.piece content]⟩
    | .error fault => run.tell (.ofFile path fault.openMessage)

def addInputs (options : Options) (standardInput : Bytes) (run : Run Outlet) : Run Outlet :=
  if options.inputs.isEmpty then
    (run.note "No input files given, reading standard input...").assembleSource
      ⟨standardInputName, [.piece standardInput]⟩
  else
    options.inputs.foldl addInput run

/-- Hands the rest of the program to the file, and tells if any write failed. -/
def finish (options : Options) (run : Run Outlet) : Run Outlet :=
  let (outlet, fault) :=
    match run.fault with
    | some fault => (run.sink, some fault)
    | none => run.sink.flush
  let finished := { run with sink := outlet }
  match fault with
  | some fault =>
    let name := options.output.getD standardOutputName
    finished.tell (.ofFile name s!"Couldn't write the program: {fault.text}")
  | none => finished

def writeListing (options : Options) (run : Run Outlet) : Run Outlet :=
  match options.listing with
  | none => run
  | some path =>
    let noted := run.note s!"Writing listing to '{path}'..."
    let listing := Text.bytes (Listing.render run.rows.toList)
    let (world, fault) := noted.sink.world.write path listing
    let written := { noted with sink := { noted.sink with world := world } }
    match fault with
    | some fault => written.tell (.ofFile path s!"Couldn't write the listing: {fault.text}")
    | none => written

def proceed (options : Options) (standardInput : Bytes) (run : Run Outlet) : Run Outlet :=
  writeListing options (finish options (addInputs options standardInput run))

end Assembly

/-- Assembles all inputs. If the output cannot be opened nothing else happens. -/
def assemble (options : Options) (standardInput : Bytes) (world : World) : Run Outlet :=
  let run := Assembly.start options world
  match Assembly.openOutlet options.output run.sink.world with
  | .ok outlet => Assembly.proceed options standardInput { run with sink := outlet }
  | .error fault =>
    let name := options.output.getD Assembly.standardOutputName
    run.tell (.ofFile name s!"Couldn't create the output file: {fault.text}")

def Run.succeeded {σ : Type} (run : Run σ) : Bool := run.diagnostics.all fun d => !d.isError

end WhitespaceAsm
