import Mathlib.Control.Monad.Basic
import WhitespaceAsm.Proofs.Lowering
import WhitespaceAsm.Proofs.Sinks
import WhitespaceAsm.Proofs.Streams
import WhitespaceAsm.Session

/-! Being verbose only adds notes. A verbose and a quiet session are followed side by side: in every step
they do the same to the files and to standard output, keep the same accounts, and fail or go on
together; the verbose one says all that the other says, and notes besides. -/
namespace WhitespaceAsm

namespace Text

def Unbroken (text : String) : Prop := '\n' ∉ text.toList

instance (text : String) : Decidable (Unbroken text) :=
  inferInstanceAs (Decidable ('\n' ∉ text.toList))

theorem Unbroken.append {a b : String} (first : Unbroken a) (second : Unbroken b) :
    Unbroken (a ++ b) := by
  simpa [Unbroken] using ⟨first, second⟩

theorem unbroken_number (number : Nat) : Unbroken (toString number) := by
  intro member
  have digit : Char.isDigit '\n' = true :=
    Nat.isDigit_of_mem_toDigits (b := 10) (n := number) (by decide) (by decide) (by simpa using member)
  contradiction

theorem unbroken_visible (text : String) : Unbroken (visible text) := by
  simp only [Unbroken, visible, String.toList_ofList, List.mem_map, not_exists, not_and]
  rintro c _ same
  split at same <;> simp_all

end Text

/- Only registered mnemonics are ever translated. -/
theorem Command.unbroken_mnemonic {command : Command} {text : String}
    (emitted : command.program = .ok text) : Text.Unbroken command.mnemonic := by
  have all : ∀ instruction ∈ Instruction.all, Text.Unbroken instruction.mnemonic := by decide +kernel
  cases found : Instruction.ofMnemonic? command.mnemonic with
  | none => simp [program, emit, found, Emission.onto_throw] at emitted
  | some instruction =>
    rw [Instruction.mnemonic_of_ofMnemonic? found]
    exact all instruction (List.mem_of_find?_eq_some found)

theorem Source.unbroken_mnemonic {source : Source} {mnemonic : String} {row : Row}
    {warning : Option Diagnostic} (member : .accepted mnemonic row warning ∈ source.outcomes) :
    Text.Unbroken mnemonic := by
  obtain ⟨⟨line, number⟩, _, same⟩ := List.mem_map.mp member
  rcases Outcome.ofLine_cases source.name line with
    blank | ⟨_, _, rejected⟩ | ⟨_, _, _, _, emitted, accepted⟩
  · simp [blank] at same
  · simp [rejected] at same
  · simp only [accepted, Outcome.accepted.injEq] at same
    exact same.1 ▸ Command.unbroken_mnemonic emitted

namespace Options

def paths (options : Options) : List String :=
  options.inputs ++ options.output.toList ++ options.listing.toList

/-- What a session may send to standard error. A note takes one line, unless a path that is given breaks
it. Bytes of the program and the listing go there only where the path for them leads there. -/
def MaySay (options : Options) (world : World) : Utterance → Prop
  | .info text => (∀ path ∈ options.paths, Text.Unbroken path) → Text.Unbroken text
  | .line _ => True
  | .device _ => ∃ path, (path ∈ options.output ∨ path ∈ options.listing) ∧ world.LeadsToError path

structure Allows (options : Options) (world : World) (may : Utterance → Prop) : Prop where
  info : ∀ text, options.MaySay world (.info text) → may (.info text)
  device : ∀ content, options.MaySay world (.device content) → may (.device content)

end Options

namespace Run

/- The notes of a source: one at its start, and one for each line that is translated. -/
def MayTrace (may : Utterance → Prop) (source : Source) : Prop :=
  may (.info s!"{source.name}: Assembling file...") ∧
    ∀ mnemonic row warning, .accepted mnemonic row warning ∈ source.outcomes →
      may (.info s!"{source.name}: {row.number}: {mnemonic} -> {visible row.program}")

structure Echoes (may : Utterance → Prop) (base : World) (quiet verbose : Run Outlet) : Prop where
  off : quiet.verbose = false
  on : verbose.verbose = true
  sink : Outlet.Echoes may base quiet.sink verbose.sink
  rows : verbose.rows = quiet.rows
  diagnostics : verbose.diagnostics = quiet.diagnostics
  fault : verbose.fault = quiet.fault

namespace Echoes

variable {may : Utterance → Prop} {base : World} {quiet verbose : Run Outlet}
  (echoes : Echoes may base quiet verbose)
include echoes

theorem succeeded : verbose.succeeded = quiet.succeeded := by
  rw [Run.succeeded, Run.succeeded, echoes.diagnostics]

theorem note {text : String} (allowed : may (.info text)) :
    Echoes may base (quiet.note text) (verbose.note text) := by
  have still : quiet.note text = quiet := by simp [Run.note, echoes.off]
  have loud : verbose.note text = { verbose with sink := verbose.sink.note text } := by
    simp only [Run.note, echoes.on, if_true]
    rfl
  rw [still, loud]
  exact { echoes with sink := echoes.sink.note allowed }

theorem tell (diagnostic : Diagnostic) :
    Echoes may base (quiet.tell diagnostic) (verbose.tell diagnostic) :=
  { echoes with diagnostics := congrArg (·.push diagnostic) echoes.diagnostics }

theorem tellAny (warning : Option Diagnostic) :
    Echoes may base (quiet.tellAny warning) (verbose.tellAny warning) := by
  cases warning with
  | none => exact echoes
  | some diagnostic => exact echoes.tell diagnostic

/- The sinks go on, and something may be told of it. -/
theorem handOn {x y : Outlet} (sinks : Outlet.Echoes may base x y) (told : Option Diagnostic) :
    Echoes may base (Run.tellAny { quiet with sink := x } told)
      (Run.tellAny { verbose with sink := y } told) := by
  have moved : Echoes may base { quiet with sink := x } { verbose with sink := y } :=
    { echoes with sink := sinks }
  exact moved.tellAny told

theorem write (row : Row) : Echoes may base (quiet.write row) (verbose.write row) := by
  obtain ⟨written, met⟩ := echoes.sink.write (Text.bytes row.program)
  have outlet : ∀ sink : Outlet, Sink.write sink = sink.write := fun _ => rfl
  simp only [Run.write, outlet]
  generalize quiet.sink.write (Text.bytes row.program) = still at written met ⊢
  generalize verbose.sink.write (Text.bytes row.program) = loud at written met ⊢
  obtain ⟨x, fault⟩ := still
  obtain ⟨y, other⟩ := loud
  cases met
  cases fault with
  | none => exact { echoes with sink := written, rows := congrArg (·.push row) echoes.rows }
  | some fault => exact { echoes with sink := written, fault := rfl }

theorem step (file : String) (outcome : Outcome)
    (allowed : ∀ mnemonic row warning, outcome = .accepted mnemonic row warning →
      may (.info s!"{file}: {row.number}: {mnemonic} -> {visible row.program}")) :
    Echoes may base (quiet.step file outcome) (verbose.step file outcome) := by
  unfold Run.step
  rw [echoes.fault]
  cases quiet.fault with
  | some fault => exact echoes
  | none =>
    cases outcome with
    | blank => exact echoes
    | rejected diagnostic => exact echoes.tell diagnostic
    | accepted mnemonic row warning =>
      exact ((echoes.note (allowed mnemonic row warning rfl)).tellAny warning).write row

theorem foldl (file : String) (outcomes : List Outcome)
    (allowed : ∀ mnemonic row warning, .accepted mnemonic row warning ∈ outcomes →
      may (.info s!"{file}: {row.number}: {mnemonic} -> {visible row.program}")) :
    Echoes may base (outcomes.foldl (Run.step file) quiet)
      (outcomes.foldl (Run.step file) verbose) := by
  induction outcomes generalizing quiet verbose with
  | nil => exact echoes
  | cons outcome outcomes ih =>
    apply ih (echoes.step file outcome ?_)
    · intro mnemonic row warning member
      exact allowed mnemonic row warning (List.mem_cons_of_mem _ member)
    · rintro mnemonic row warning rfl
      exact allowed mnemonic row warning List.mem_cons_self

theorem assembleSource {source : Source} (allowed : MayTrace may source) :
    Echoes may base (quiet.assembleSource source) (verbose.assembleSource source) := by
  unfold Run.assembleSource
  rw [echoes.fault]
  cases quiet.fault with
  | some fault => exact echoes
  | none => exact (echoes.note allowed.1).foldl source.name source.outcomes allowed.2

theorem addInput {path : String} (allowed : ∀ content, MayTrace may ⟨path, [.piece content]⟩) :
    Echoes may base (Assembly.addInput quiet path) (Assembly.addInput verbose path) := by
  unfold Assembly.addInput
  rw [echoes.fault, echoes.sink.world.files.read]
  cases quiet.fault with
  | some fault => exact echoes
  | none =>
    cases quiet.sink.world.read path with
    | ok content => exact echoes.assembleSource (allowed content)
    | error fault => exact echoes.tell _

theorem foldl_addInput {inputs : List String}
    (allowed : ∀ path ∈ inputs, ∀ content, MayTrace may ⟨path, [.piece content]⟩) :
    Echoes may base (inputs.foldl Assembly.addInput quiet)
      (inputs.foldl Assembly.addInput verbose) := by
  induction inputs generalizing quiet verbose with
  | nil => exact echoes
  | cons path inputs ih =>
    obtain ⟨first, later⟩ := List.forall_mem_cons.mp allowed
    exact ih (echoes.addInput first) later

end Echoes

end Run

namespace Options

variable {options : Options} {world : World} {may : Utterance → Prop}
  (allows : options.Allows world may)
include allows

theorem Allows.mayTrace {name : String}
    (given : (∀ path ∈ options.paths, Text.Unbroken path) → Text.Unbroken name) (content : Bytes) :
    Run.MayTrace may ⟨name, [.piece content]⟩ := by
  constructor
  · apply allows.info
    intro unbroken
    exact (given unbroken).append (by decide +kernel)
  · intro mnemonic row warning member
    apply allows.info
    intro unbroken
    have place := ((given unbroken).append (b := ": ") (by decide +kernel)).append
      (Text.unbroken_number row.number)
    have named := (place.append (b := ": ") (by decide +kernel)).append
      (Source.unbroken_mnemonic member)
    exact (named.append (b := " -> ") (by decide +kernel)).append (Text.unbroken_visible row.program)

end Options

namespace Assembly

/- The outlet once the rest of the program was handed on, and the fault that was met by then. -/
def drained (run : Run Outlet) : Outlet × Option Fault :=
  match run.fault with
  | some fault => (run.sink, some fault)
  | none => run.sink.flush

theorem finish_eq (options : Options) (run : Run Outlet) :
    finish options run = Run.tellAny { run with sink := (drained run).1 }
      ((drained run).2.map fun fault => .ofFile (options.output.getD standardOutputName)
        s!"Couldn't write the program: {fault.text}") := by
  unfold finish drained
  cases stopped : run.fault with
  | some fault => rfl
  | none => cases fault : run.sink.flush.2 <;> simp [fault, Run.tellAny]

theorem writeListing_eq {options : Options} {path : String} (asked : options.listing = some path)
    (run : Run Outlet) :
    let noted := run.note s!"Writing listing to '{path}'..."
    let after := noted.sink.world.write path (Text.bytes (Listing.render run.rows.toList))
    writeListing options run = Run.tellAny { noted with sink := { noted.sink with world := after.1 } }
      (after.2.map fun fault => .ofFile path s!"Couldn't write the listing: {fault.text}") := by
  intro noted after
  unfold writeListing
  rw [asked]
  cases fault : after.2 <;> simp [fault, Run.tellAny, after, noted]

section Echoes

variable {options : Options} {may : Utterance → Prop} {world : World} {quiet verbose : Run Outlet}
  (allows : options.Allows world may)
include allows

theorem start_echoes :
    Run.Echoes may world (start { options with verbose := false } world)
      (start { options with verbose := true } world) := by
  have fresh : Run.Echoes may world { verbose := false, sink := ⟨world, .standard⟩ }
      { verbose := true, sink := ⟨world, .standard⟩ } :=
    ⟨rfl, rfl, ⟨rfl, .refl may world, by rintro _ _ ⟨⟩⟩, rfl, rfl, rfl⟩
  exact fresh.note (allows.info _ fun _ => by decide +kernel)

theorem openOutlet_echoes {x y : World} (worlds : world.Echoes may x y) :
    (∃ fault, openOutlet options.output x = .error fault ∧
      openOutlet options.output y = .error fault) ∨
    ∃ still loud, openOutlet options.output x = .ok still ∧ openOutlet options.output y = .ok loud ∧
      Outlet.Echoes may world still loud := by
  unfold openOutlet
  cases output : options.output with
  | none => exact .inr ⟨_, _, rfl, rfl, rfl, worlds, by rintro _ _ ⟨⟩⟩
  | some path =>
    rcases worlds.create path with ⟨fault, still, loud⟩ | ⟨_, _, place, still, loud, opened, leads⟩
    · simp only [still, loud]
      exact .inl ⟨fault, rfl, rfl⟩
    · simp only [still, loud]
      refine .inr ⟨_, _, rfl, rfl, rfl, opened, ?_⟩
      rintro _ _ ⟨⟩ channel content
      exact allows.device content ⟨path, .inl output, leads channel⟩

section Stages

variable (standardInput : Bytes) (echoes : Run.Echoes may world quiet verbose)
include echoes

theorem addInputs_echoes :
    Run.Echoes may world (addInputs options standardInput quiet)
      (addInputs options standardInput verbose) := by
  unfold addInputs
  split
  · have noted := echoes.note (allows.info "No input files given, reading standard input..."
      fun _ => by decide +kernel)
    exact noted.assembleSource (allows.mayTrace (fun _ => by decide +kernel) standardInput)
  · apply echoes.foldl_addInput
    intro path member content
    exact allows.mayTrace (fun unbroken => unbroken path (by simp [Options.paths, member])) content

omit allows in
theorem finish_echoes :
    Run.Echoes may world (finish options quiet) (finish options verbose) := by
  have handed : Outlet.Echoes may world (drained quiet).1 (drained verbose).1 ∧
      (drained verbose).2 = (drained quiet).2 := by
    unfold drained
    rw [echoes.fault]
    cases quiet.fault with
    | some fault => exact ⟨echoes.sink, rfl⟩
    | none => exact echoes.sink.flush
  rw [finish_eq, finish_eq, handed.2]
  exact echoes.handOn handed.1 _

theorem writeListing_echoes :
    Run.Echoes may world (writeListing options quiet) (writeListing options verbose) := by
  cases listing : options.listing with
  | none =>
    simp only [writeListing, listing]
    exact echoes
  | some path =>
    have noted := echoes.note (allows.info s!"Writing listing to '{path}'..." fun unbroken => by
      have given := unbroken path (by simp [Options.paths, listing])
      exact (Text.Unbroken.append (by decide +kernel) given).append (by decide +kernel))
    obtain ⟨worlds, met⟩ := noted.sink.world.write path
      (Text.bytes (Listing.render quiet.rows.toList))
      fun leads => allows.device _ ⟨path, .inr listing, leads⟩
    simp only [writeListing_eq listing, echoes.rows, met]
    apply noted.handOn
    exact ⟨noted.sink.target, worlds, noted.sink.heard⟩

theorem proceed_echoes :
    Run.Echoes may world (proceed options standardInput quiet)
      (proceed options standardInput verbose) :=
  writeListing_echoes allows (finish_echoes (addInputs_echoes allows standardInput echoes))

end Stages

/- Up to the last line of the listing the two runs do the same. -/
theorem assemble_echoes (standardInput : Bytes) :
    Run.Echoes may world (assemble { options with verbose := false } standardInput world)
      (assemble { options with verbose := true } standardInput world) := by
  have started := start_echoes allows
  unfold assemble
  rcases openOutlet_echoes allows started.sink.world with
    ⟨fault, still, loud⟩ | ⟨x, y, still, loud, opened⟩
  · simp only [still, loud]
    exact started.tell _
  · simp only [still, loud]
    exact proceed_echoes allows standardInput { started with sink := opened }

end Echoes

end Assembly

namespace World.Echoes

variable {may : Utterance → Prop} {base quiet verbose : World}
  (echoes : base.Echoes may quiet verbose)
include echoes

theorem foldl_say (lines : List String) (allowed : ∀ text ∈ lines, may (.line text)) :
    base.Echoes may (lines.foldl World.say quiet) (lines.foldl World.say verbose) := by
  induction lines generalizing quiet verbose with
  | nil => exact echoes
  | cons text lines ih =>
    obtain ⟨first, later⟩ := List.forall_mem_cons.mp allowed
    exact ih (echoes.send_error (.line text) rfl first) later

theorem foldl_info {notes : List String} (allowed : ∀ text ∈ notes, may (.info text)) :
    base.Echoes may quiet ((notes.map fun text => s!"INFO: {text}").foldl World.say verbose) := by
  induction notes generalizing verbose with
  | nil => exact echoes
  | cons text notes ih =>
    obtain ⟨first, later⟩ := List.forall_mem_cons.mp allowed
    exact ih (echoes.say_info first) later

end World.Echoes

namespace Session

def closingNotes (options : Options) (run : Run Outlet) : List String :=
  let warnings := run.diagnostics.toList.countP fun d => !d.isError
  s!"Successfully assembled, with {warnings} warnings." ::
    ((options.output.map fun path => s!"The program was output at '{path}'.").toList ++
      (options.listing.map fun path => s!"The listing file was output at '{path}'.").toList)

theorem closing_verbose {options : Options} (verbose : options.verbose = true) {run : Run Outlet}
    (succeeded : run.succeeded = true) :
    closing options run = (closingNotes options run).map fun text => s!"INFO: {text}" := by
  simp only [closing, closingNotes, succeeded, verbose, if_true, List.map_cons, List.map_append]
  cases options.output <;> cases options.listing <;> rfl

theorem mayNote_closing (options : Options) (world : World) (run : Run Outlet) :
    ∀ text ∈ closingNotes options run, options.MaySay world (.info text) := by
  intro text member unbroken
  unfold closingNotes at member
  rcases List.mem_cons.mp member with rfl | member
  · exact ((by decide +kernel : Text.Unbroken "Successfully assembled, with ").append
      (Text.unbroken_number _)).append (by decide +kernel)
  · rcases List.mem_append.mp member with member | member
    · obtain ⟨path, asked, rfl⟩ := Option.map_eq_some_iff.mp (Option.mem_toList.mp member)
      have given := unbroken path (by simp [Options.paths, asked])
      exact ((by decide +kernel : Text.Unbroken "The program was output at '").append given).append
        (by decide +kernel)
    · obtain ⟨path, asked, rfl⟩ := Option.map_eq_some_iff.mp (Option.mem_toList.mp member)
      have given := unbroken path (by simp [Options.paths, asked])
      exact ((by decide +kernel : Text.Unbroken "The listing file was output at '").append
        given).append (by decide +kernel)

theorem not_isRegular {world : World} {path : String}
    (unfiled : ∀ content, world.find path ≠ .ok (.file content))
    (unlocked : world.find path ≠ .ok .locked) : ¬ world.isRegular path = true := by
  unfold World.isRegular
  split
  · rename_i content found
    exact absurd found (unfiled content)
  · rename_i found
    exact absurd found unlocked
  · simp

theorem ofOptions_regular (options : Options) {world : World}
    (regular : options.inputs.all world.isRegular = true) (standardInput : Bytes) :
    let run := assemble options standardInput world
    ofOptions options standardInput world =
      ⟨.finished (if run.succeeded then 0 else 2),
        (messages options run).foldl World.say run.sink.world⟩ :=
  if_pos regular

theorem ofOptions_irregular (options : Options) {world : World}
    (irregular : ¬ options.inputs.all world.isRegular = true) (standardInput : Bytes) :
    ofOptions options standardInput world =
      ⟨.finished 1, world.say "ERR: All paths given as inputs must point to existing files."⟩ :=
  if_neg irregular

/- The diagnostics, and the tally of a run that failed, are said in both sessions. -/
theorem messages_echoes {options : Options} {world : World} {quiet verbose : Run Outlet}
    (echoes : Run.Echoes (options.MaySay world) world quiet verbose) :
    world.Echoes (options.MaySay world)
      ((messages { options with verbose := false } quiet).foldl World.say quiet.sink.world)
      ((messages { options with verbose := true } verbose).foldl World.say verbose.sink.world) := by
  have told := echoes.sink.world.foldl_say (quiet.diagnostics.toList.map Diagnostic.render)
    fun _ _ => trivial
  simp only [messages, List.foldl_append, echoes.diagnostics]
  by_cases succeeded : verbose.succeeded = true
  · have nothing : closing { options with verbose := false } quiet = [] := by
      have same : quiet.succeeded = true := echoes.succeeded ▸ succeeded
      simp [closing, same]
    rw [nothing, closing_verbose rfl succeeded]
    exact told.foldl_info (mayNote_closing _ world verbose)
  · have tally : closing { options with verbose := true } verbose =
        closing { options with verbose := false } quiet := by
      have same : ¬ quiet.succeeded = true := echoes.succeeded ▸ succeeded
      simp only [closing, if_neg succeeded, if_neg same, echoes.diagnostics]
    rw [tally]
    exact told.foldl_say _ fun _ _ => trivial

theorem ofOptions_echoes (options : Options) (standardInput : Bytes) (world : World) :
    let quiet := ofOptions { options with verbose := false } standardInput world
    let verbose := ofOptions { options with verbose := true } standardInput world
    verbose.ending = quiet.ending ∧ world.Echoes (options.MaySay world) quiet.world verbose.world := by
  intro quiet verbose
  by_cases regular : options.inputs.all world.isRegular = true
  · have allows : options.Allows world (options.MaySay world) := ⟨fun _ => id, fun _ => id⟩
    have run := Assembly.assemble_echoes allows standardInput
    have still : quiet = _ := ofOptions_regular { options with verbose := false } regular standardInput
    have loud : verbose = _ := ofOptions_regular { options with verbose := true } regular standardInput
    rw [still, loud, run.succeeded]
    exact ⟨rfl, messages_echoes run⟩
  · have still : quiet = _ :=
      ofOptions_irregular { options with verbose := false } regular standardInput
    have loud : verbose = _ :=
      ofOptions_irregular { options with verbose := true } regular standardInput
    rw [still, loud]
    exact ⟨rfl, (World.Echoes.refl _ world).send_error (.line _) rfl trivial⟩

end Session

/-- Being verbose only adds notes. With the same inputs and files a verbose session ends like a quiet one,
and leaves the same files and the same standard output. On standard error it says the same, in the
same order, with notes in between. An input that is no regular file ends either session at once. -/
theorem verbose_only_talks (options : Options) (standardInput : Bytes) (world : World) :
    let quiet := Session.ofOptions { options with verbose := false } standardInput world
    let verbose := Session.ofOptions { options with verbose := true } standardInput world
    verbose.ending = quiet.ending ∧
    verbose.world.output.content = quiet.world.output.content ∧
    verbose.world.node? = quiet.world.node? ∧
    (∃ said : List Utterance, (∀ one ∈ said, options.MaySay world one) ∧
      quiet.world.error.content =
        world.error.content ++ Utterance.transcript (Utterance.withoutInfo said) ∧
      verbose.world.error.content = world.error.content ++ Utterance.transcript said) ∧
    ∀ path ∈ options.inputs, (∀ content, world.find path ≠ .ok (.file content)) →
      world.find path ≠ .ok .locked →
        ∀ session ∈ [quiet, verbose], session.ending = .finished 1 ∧
          session.world.output = world.output ∧ session.world.node? = world.node? := by
  intro quiet verbose
  obtain ⟨ending, echoes⟩ := Session.ofOptions_echoes options standardInput world
  refine ⟨ending, congrArg Tape.content echoes.output, echoes.files.node?, echoes.error, ?_⟩
  intro path given unfiled unlocked
  have refused : ¬ options.inputs.all world.isRegular = true := by
    intro regular
    exact Session.not_isRegular unfiled unlocked (List.all_eq_true.mp regular path given)
  have still : quiet = _ :=
    Session.ofOptions_irregular { options with verbose := false } refused standardInput
  have loud : verbose = _ :=
    Session.ofOptions_irregular { options with verbose := true } refused standardInput
  rw [still, loud]
  exact List.forall_mem_cons.mpr
    ⟨⟨rfl, rfl, rfl⟩, List.forall_mem_singleton.mpr ⟨rfl, rfl, rfl⟩⟩

/-- Not only what is missing: a directory and a device are no regular files either. -/
theorem irregular_inputs_refused :
    let world := World.fresh ["w"]
    let options := fun path => (⟨false, some "out", none, [path]⟩ : Options)
    let refused := fun path =>
      ∀ session ∈ [Session.ofOptions { options path with verbose := false } [] world,
          Session.ofOptions { options path with verbose := true } [] world],
        session.ending = .finished 1 ∧ session.world.output = world.output ∧
          session.world.node? = world.node?
    (world.find "missing" = .error .notFound ∧ refused "missing") ∧
      (world.find "/tmp" = .ok .directory ∧ refused "/tmp") ∧
      world.find "/dev/null" = .ok (.stream []) ∧ refused "/dev/null" := by
  intro world options refused
  have missing : world.find "missing" = .error .notFound := by decide +kernel
  have directory : world.find "/tmp" = .ok .directory := by decide +kernel
  have device : world.find "/dev/null" = .ok (.stream []) := by decide +kernel
  have irregular : ∀ path, (∀ content, world.find path ≠ .ok (.file content)) →
      world.find path ≠ .ok .locked → refused path := by
    intro path
    exact (verbose_only_talks (options path) [] world).2.2.2.2 path (List.mem_singleton.mpr rfl)
  exact ⟨⟨missing, irregular _ (by simp [missing]) (by simp [missing])⟩,
    ⟨directory, irregular _ (by simp [directory]) (by simp [directory])⟩,
    device, irregular _ (by simp [device]) (by simp [device])⟩

end WhitespaceAsm
