import WhitespaceAsm.Proofs.FileAssembly
import WhitespaceAsm.Proofs.Outcome
import WhitespaceAsm.Proofs.Verbosity

/-! The ways of a source through the program. It comes from standard input or from a file, and its
program goes to standard output or to a file. All these ways come to one report: what is written,
listed and told depends on the bytes of the source alone, but for the name that it goes by in the
diagnostics. -/
namespace WhitespaceAsm

namespace Diagnostic

def inFile (name : String) (diagnostic : Diagnostic) : Diagnostic := { diagnostic with file := name }

theorem isError_inFile (name : String) : isError ∘ inFile name = isError := rfl

end Diagnostic

namespace Report

def inFile (name : String) (report : Report) : Report :=
  { report with diagnostics := report.diagnostics.map (Diagnostic.inFile name) }

theorem inFile_append (name : String) (a b : Report) :
    (a ++ b).inFile name = a.inFile name ++ b.inFile name := by
  ext1 <;> simp [inFile]

theorem inFile_concat (name : String) (reports : List Report) :
    (concat reports).inFile name = concat (reports.map (inFile name)) := by
  induction reports with
  | nil => rfl
  | cons report reports ih => simp [inFile_append, ih]

end Report

theorem Outcome.report_inFile (file name : String) (number : Nat) (line : Except Fault Bytes) :
    (ofLine file number line).report.inFile name = (ofLine name number line).report := by
  rcases ofLine_forms line with blank | ⟨span, message, rejected⟩ | accepted
  · rw [blank, blank]
    rfl
  · rw [rejected, rejected]
    rfl
  · obtain ⟨command, text, program, span, _, accepted⟩ := accepted
    rw [accepted, accepted]
    cases command.lint? <;> rfl

theorem Source.report_inFile (file name : String) (deliveries : List Delivery) :
    ((Source.mk file deliveries).assembled false).report.inFile name =
      ((Source.mk name deliveries).assembled false).report := by
  simp only [assembled_report, Report.inFile_concat, outcomes, List.map_map]
  congr 1
  apply List.map_congr_left
  intro numbered _
  exact Outcome.report_inFile file name numbered.2 numbered.1

def Text.begins (mark text : String) : Bool := mark.toList.isPrefixOf text.toList

namespace Diagnostic

theorem render_eq (diagnostic : Diagnostic) :
    ∃ rest, diagnostic.render = diagnostic.severity.label ++ ": " ++ rest := by
  unfold render
  simp only [String.append_assoc]
  split <;> exact ⟨_, rfl⟩

/- The mark that a diagnostic is printed with tells errors and warnings apart. -/
theorem begins_render (diagnostic : Diagnostic) :
    Text.begins "ERR: " diagnostic.render = diagnostic.isError ∧
      Text.begins "WARN: " diagnostic.render = !diagnostic.isError := by
  obtain ⟨rest, printed⟩ := diagnostic.render_eq
  rw [printed, isError]
  cases diagnostic.severity <;> simp [Text.begins, Severity.label, List.isPrefixOf]

end Diagnostic

namespace Session

/-- The line that counts the errors and warnings among those printed, if there are errors. -/
def tally (printed : List String) : List String :=
  let errors := printed.countP (Text.begins "ERR: ")
  let warnings := printed.countP (Text.begins "WARN: ")
  if errors = 0 then []
  else [s!"ERR: Failed to assemble, with {errors} errors and {warnings} warnings."]

/-- Utterances that are the lines, with notes in between if the session is verbose. -/
structure Speech (options : Options) (world : World) (lines : List String)
    (said : List Utterance) : Prop where
  lines : Utterance.withoutInfo said = lines.map .line
  allowed : ∀ one ∈ said, options.MaySay world one
  quiet : options.verbose = false → Utterance.withoutInfo said = said

section Speech

variable {options : Options} {world : World}

theorem Speech.append {first second : List String} {start rest : List Utterance}
    (a : Speech options world first start) (b : Speech options world second rest) :
    Speech options world (first ++ second) (start ++ rest) where
  lines := by
    rw [List.map_append, ← a.lines, ← b.lines]
    exact List.filter_append start rest
  allowed one member := (List.mem_append.mp member).elim (a.allowed one) (b.allowed one)
  quiet silent := by
    have kept := congrArg₂ (· ++ ·) (a.quiet silent) (b.quiet silent)
    exact (List.filter_append start rest).trans kept

theorem speech_lines (lines : List String) : Speech options world lines (lines.map .line) := by
  have all : Utterance.withoutInfo (lines.map .line) = lines.map .line := by
    simp [Utterance.withoutInfo, Utterance.isInfo]
  refine ⟨all, ?_, fun _ => all⟩
  intro one member
  obtain ⟨text, _, rfl⟩ := List.mem_map.mp member
  trivial

theorem speech_notes {notes : List Utterance} (verbose : options.verbose = true)
    (allowed : ∀ one ∈ notes, options.MaySay world one ∧ one.isInfo = true) :
    Speech options world [] notes where
  lines := Utterance.withoutInfo_notes fun one member => (allowed one member).2
  allowed one member := (allowed one member).1
  quiet silent := by simp [verbose] at silent

theorem speech_nothing : Speech options world [] [] := speech_lines []

end Speech

theorem countP_render (diagnostics : List Diagnostic) :
    (diagnostics.map Diagnostic.render).countP (Text.begins "ERR: ") =
        diagnostics.countP Diagnostic.isError ∧
      (diagnostics.map Diagnostic.render).countP (Text.begins "WARN: ") =
        diagnostics.countP fun d => !d.isError := by
  simp only [List.countP_map]
  constructor
  · exact List.countP_congr fun d _ => by simp [d.begins_render.1]
  · exact List.countP_congr fun d _ => by simp [d.begins_render.2]

theorem succeeded_iff (run : Run Outlet) :
    run.succeeded = true ↔ run.diagnostics.toList.countP Diagnostic.isError = 0 := by
  simp [Run.succeeded, ← Array.all_toList]

theorem closing_said (options : Options) (world : World) (run : Run Outlet) :
    ∃ said, Speech options world (tally (run.diagnostics.toList.map Diagnostic.render)) said ∧
      Utterance.transcript ((closing options run).map .line) = Utterance.transcript said := by
  obtain ⟨errors, warnings⟩ := countP_render run.diagnostics.toList
  by_cases succeeded : run.succeeded = true
  · have nothing : tally (run.diagnostics.toList.map Diagnostic.render) = [] :=
      if_pos (errors.trans ((succeeded_iff run).mp succeeded))
    rw [nothing]
    cases talk : options.verbose with
    | false => exact ⟨[], speech_nothing, by simp [closing, succeeded, talk]⟩
    | true =>
      refine ⟨(closingNotes options run).map .info, speech_notes talk ?_, ?_⟩
      · intro one member
        obtain ⟨text, noted, rfl⟩ := List.mem_map.mp member
        exact ⟨mayNote_closing options world run text noted, rfl⟩
      · rw [closing_verbose talk succeeded]
        simp only [Utterance.transcript, List.map_map, List.flatMap_map]
        rfl
  · refine ⟨_, speech_lines _, ?_⟩
    have failed := mt (succeeded_iff run).mpr succeeded
    simp only [closing, if_neg succeeded, tally, errors, warnings, if_neg failed]

/- What a session tells when all is assembled, over what was heard before. -/
theorem foldl_say_error (lines : List String) (world : World) :
    (lines.foldl World.say world).error.content =
      world.error.content ++ Utterance.transcript (lines.map .line) := by
  induction lines generalizing world with
  | nil => simp [Utterance.transcript]
  | cons line lines ih =>
    rw [List.foldl_cons, ih]
    simp [World.say, World.send, Utterance.transcript, Utterance.bytes]

end Session

namespace Assembly

/- While nothing that is written goes to standard error only notes are heard there. -/
theorem notes_heard (options : Options) (standardInput : Bytes) {world : World}
    (apart : ∀ path, path ∈ options.output ∨ path ∈ options.listing → ¬ world.LeadsToError path) :
    ∃ notes, Session.Speech options world [] notes ∧
      (assemble options standardInput world).sink.world.error.content =
        world.error.content ++ Utterance.transcript notes := by
  have allows : options.Allows world fun one => options.MaySay world one ∧ one.isInfo = true :=
    ⟨fun text may => ⟨may, rfl⟩, fun _ ⟨path, asked, leads⟩ => absurd leads (apart path asked)⟩
  obtain ⟨said, all, quiet, verbose⟩ := (assemble_echoes allows standardInput).sink.world.error
  cases talk : options.verbose with
  | false =>
    have nothing := Utterance.withoutInfo_notes fun one member => (all one member).2
    rw [← talk, nothing] at quiet
    exact ⟨[], Session.speech_nothing, quiet⟩
  | true =>
    rw [← talk] at verbose
    exact ⟨said, Session.speech_notes talk all, verbose⟩

end Assembly

namespace World

variable {world : World}

theorem SameFiles.makesFile_iff {other : World} (same : world.SameFiles other) {path : String}
    {place : Location} : world.MakesFile path place ↔ other.MakesFile path place := by
  simp only [World.makesFile_iff, Vacant, same.target, same.node?]

theorem MakesFile.place_eq {path : String} {place other : Location}
    (makesFile : world.MakesFile path place) (makes : world.Makes path other) : other = place := by
  obtain ⟨opened, created⟩ := makes
  have found := (World.makesFile_iff.mp makesFile).1
  exact Except.ok.inj ((create_eq_ok_iff.mp created).1.symm.trans found)

theorem not_leadsToError {path : String} {place : Location} (makes : world.MakesFile path place) :
    ¬ world.LeadsToError path := by
  rintro ⟨other, made, channel⟩
  cases makes.place_eq made
  rcases (World.makesFile_iff.mp makes).2 with none | ⟨content, file⟩
  · simp [none] at channel
  · simp [file] at channel

/-- What the world holds after a report was sent where the options want it: the program went to
standard output, or to a file and nothing to standard output, and the listing to a file. -/
structure Receives (world : World) (options : Options) (report : Report) (after : World) : Prop where
  program : match options.output with
    | none => after.output.content = world.output.content ++ report.program
    | some path => after.output.content = world.output.content ∧
      ∀ place, world.MakesFile path place → after.node? place = some (.file report.program)
  listing : ∀ path ∈ options.listing, ∀ place, world.MakesFile path place →
    after.node? place = some (.file (Text.bytes (Listing.render report.rows)))

theorem Receives.foldl_say {options : Options} {report : Report} {after : World}
    (receives : world.Receives options report after) (lines : List String) :
    world.Receives options report (lines.foldl World.say after) := by
  induction lines generalizing after with
  | nil => exact receives
  | cons line lines ih => exact ih ⟨receives.program, receives.listing⟩

end World

theorem Run.note_world (run : Run Outlet) (text : String) :
    (run.note text).sink.world.SameFiles run.sink.world ∧
      (run.note text).sink.world.output = run.sink.world.output := by
  unfold note
  split
  · exact ⟨(run.sink.note_world text).2, rfl⟩
  · exact ⟨.refl _, rfl⟩

namespace Assembly

/-- A way for a source through the program: its bytes come from standard input or from the one input
file, and each file that is written is one of its own. -/
structure Route (content : Bytes) (name : String) (options : Options) (standardInput : Bytes)
    (world : World) : Prop where
  source : options.inputs = [] ∧ standardInput = content ∧ name = standardInputName ∨
    options.inputs = [name] ∧ world.find name = .ok (.file content)
  output : ∀ path ∈ options.output, ∃ place, world.MakesFile path place ∧
    ∀ input ∈ options.inputs, ¬ world.Names input place
  listing : ∀ path ∈ options.listing, ∃ place, world.MakesFile path place ∧
    ∀ other ∈ options.output, ¬ world.MakesFile other place

variable {options : Options} {standardInput content : Bytes} {world : World} {run : Run Outlet}
  {name : String} {report : Report} {place : Location}

theorem addInputs_carries {holds : Outlet → Bytes → Prop} (takes : Sink.Takes holds fun _ _ => True)
    (carries : run.Carries holds .empty)
    (source : options.inputs = [] ∧ standardInput = content ∧ name = standardInputName ∨
      options.inputs = [name] ∧ run.sink.world.read name = .ok content) :
    (addInputs options standardInput run).Carries holds
      ((Source.mk name [.piece content]).assembled false).report := by
  rw [Source.assembled_report]
  rcases source with ⟨none, rfl, rfl⟩ | ⟨one, readable⟩
  · have noted := Run.note_carries takes carries "No input files given, reading standard input..."
    simp only [addInputs, none, List.isEmpty_nil, if_true]
    exact Run.assembleSource_carries takes noted (Run.allFit_any (fun _ _ => trivial) _ _)
  · simp only [addInputs, one, List.isEmpty_cons, List.foldl_cons, List.foldl_nil]
    exact addInput_read takes carries readable

theorem finish_alone (options : Options)
    (carries : run.Carries (Outlet.FillsAlone world place) report) :
    (finish options run).sink.world.output = world.output := by
  rw [finish_eq, (Run.tellAny_sink _ _).2, drained, carries.running]
  exact (Outlet.flush_output carries.sink.1).trans carries.sink.2

theorem finish_printed (options : Options) (carries : run.Carries (Outlet.Prints world) report) :
    (finish options run).sink.world.output.content = world.output.content ++ report.program := by
  rw [finish_eq, (Run.tellAny_sink _ _).2, drained, carries.running]
  simp only [Outlet.flush, carries.sink.target]
  exact carries.sink.printed

theorem writeListing_output {files : World} {rows : List Row} {told : List Diagnostic}
    (leaves : run.Leaves files rows told)
    (made : ∀ path ∈ options.listing, ∃ place, files.MakesFile path place) :
    (writeListing options run).sink.world.output = run.sink.world.output := by
  cases listing : options.listing with
  | none => simp only [writeListing, listing]
  | some path =>
    obtain ⟨place, makes⟩ := made path listing
    obtain ⟨same, output⟩ := run.note_world s!"Writing listing to '{path}'..."
    simp only [writeListing_eq listing, Run.tellAny_sink,
      World.write_file ((same.trans leaves.files).makesFile_iff.mpr makes)]
    exact output

theorem Lists.told {files : World} {listing : Option String} {rows : List Row}
    {told : List Diagnostic} (lists : Lists files listing rows told run)
    (made : ∀ path ∈ listing, ∃ place, files.MakesFile path place) :
    run.diagnostics.toList = told := by
  have nothing : unlisted listing (files.list listing rows).2 = [] := by
    cases asked : listing with
    | none => rfl
    | some path =>
      subst asked
      obtain ⟨place, makes⟩ := made path rfl
      exact (lists.listed rfl makes).1
  rw [lists.diagnostics, nothing, List.append_nil]

structure Delivers (options : Options) (world : World) (report : Report)
    (run : Run Outlet) : Prop where
  receives : world.Receives options report run.sink.world
  diagnostics : run.diagnostics.toList = report.diagnostics

section Routes

variable (route : Route content name options standardInput world)
include route

theorem Route.made : ∀ path ∈ options.listing, ∃ place, world.MakesFile path place := by
  intro path asked
  obtain ⟨place, makes, _⟩ := route.listing path asked
  exact ⟨place, makes⟩

theorem Route.regular : options.inputs.all world.isRegular = true := by
  rcases route.source with ⟨none, _⟩ | ⟨one, found⟩
  · simp [none]
  · simp [one, World.isRegular, found]

theorem Route.apart (path : String) (asked : path ∈ options.output ∨ path ∈ options.listing) :
    ¬ world.LeadsToError path := by
  rcases asked with asked | asked
  · obtain ⟨place, makes, _⟩ := route.output path asked
    exact World.not_leadsToError makes
  · obtain ⟨place, makes, _⟩ := route.listing path asked
    exact World.not_leadsToError makes

/- The source can be read as long as what was read from the inputs before still is. -/
theorem Route.source_read {later : World} (still : ∀ path ∈ options.inputs, ∀ found,
      world.read path = .ok found → later.read path = .ok found) :
    options.inputs = [] ∧ standardInput = content ∧ name = standardInputName ∨
      options.inputs = [name] ∧ later.read name = .ok content := by
  rcases route.source with none | ⟨one, found⟩
  · exact .inl none
  · have readable : world.read name = .ok content := by
      rw [World.read, found]
      rfl
    exact .inr ⟨one, still name (by simp [one]) content readable⟩

theorem Route.unlisted_place {path : String} (asked : options.output = some path)
    (makes : world.MakesFile path place) : ∀ other ∈ options.listing, ¬ world.Makes other place := by
  intro other listed made
  obtain ⟨location, listing, elsewhere⟩ := route.listing other listed
  cases listing.place_eq made
  exact elsewhere path asked makes

theorem assemble_to_file {path : String} (asked : options.output = some path) :
    Delivers options world ((Source.mk name [.piece content]).assembled false).report
      (assemble options standardInput world) := by
  obtain ⟨place, makes, unnamed⟩ := route.output path asked
  obtain ⟨found, vacant⟩ := World.makesFile_iff.mp makes
  obtain ⟨noted, same, output, opened⟩ := assemble_opened options standardInput asked
    (World.create_eq_ok_iff.mpr ⟨found, World.openAt_vacant vacant⟩)
  have fresh : Run.Carries (Outlet.FillsAlone world place)
      { verbose := options.verbose, sink := ⟨noted, .file place .empty⟩ } .empty :=
    ⟨rfl, ⟨⟨[], .empty, rfl, same, rfl⟩, output⟩, rfl, rfl⟩
  have added := addInputs_carries (Outlet.takes_fillsAlone world place) fresh <|
    route.source_read fun input given _ readable =>
      (same.read input).trans (World.read_put_unnamed vacant (unnamed input given) readable [])
  have left := finish_fills options
    ⟨added.running, added.sink.1, added.rows, added.diagnostics⟩
  have made := route.made
  simp only [← World.makesFile_put_iff vacant
    ((Source.mk name [.piece content]).assembled false).report.program] at made
  have lists := writeListing_lists options left
  have deposits := deposits_of_lists vacant lists
  have silent := (writeListing_output left made).trans (finish_alone options added)
  rw [opened]
  refine ⟨⟨?_, deposits.listed⟩, lists.told made⟩
  rw [asked]
  refine ⟨congrArg Tape.content silent, ?_⟩
  rintro location ⟨opened, created, _⟩
  cases makes.place_eq ⟨opened, created⟩
  exact deposits.program (route.unlisted_place asked makes)

theorem assemble_to_output (asked : options.output = none) :
    Delivers options world ((Source.mk name [.piece content]).assembled false).report
      (assemble options standardInput world) := by
  obtain ⟨noted, same, output, opened⟩ := assemble_standard options standardInput world asked
  have fresh : Run.Carries (Outlet.Prints world)
      { verbose := options.verbose, sink := ⟨noted, .standard⟩ } .empty :=
    ⟨rfl, ⟨rfl, same, by simp [output, Report.empty]⟩, rfl, rfl⟩
  have added := addInputs_carries (Outlet.takes_prints world) fresh <|
    route.source_read fun input _ _ readable => (same.read input).trans readable
  have left := finish_prints options added
  have lists := writeListing_lists options left
  have kept := writeListing_output left route.made
  rw [opened]
  refine ⟨⟨?_, ?_⟩, lists.told route.made⟩
  · rw [asked]
    exact (congrArg Tape.content kept).trans (finish_printed options added)
  · intro path listed place makes
    rw [← lists.rows]
    exact (lists.listed listed makes).2

theorem Route.delivers :
    Delivers options world ((Source.mk name [.piece content]).assembled false).report
      (assemble options standardInput world) := by
  cases asked : options.output with
  | none => exact assemble_to_output route asked
  | some path => exact assemble_to_file route asked

end Routes

end Assembly

namespace Session

/-- What a session shows of a source that has this report and goes by this name. The program and the
listing are where they were asked for. The session fails if there is an error, and on standard
error are the diagnostics and, if it fails, their tally. -/
structure Presents (report : Report) (name : String) (options : Options) (world : World)
    (session : Session) : Prop where
  receives : world.Receives options report session.world
  ending : session.ending = .finished (if report.diagnostics.any Diagnostic.isError then 2 else 0)
  error : ∃ said,
    let printed := (report.inFile name).diagnostics.map Diagnostic.render
    Speech options world (printed ++ tally printed) said ∧
      session.world.error.content = world.error.content ++ Utterance.transcript said

variable {options : Options} {world : World} {report : Report} {name : String}

theorem any_inFile (name : String) (report : Report) :
    (report.inFile name).diagnostics.any Diagnostic.isError =
      report.diagnostics.any Diagnostic.isError := by
  simp only [Report.inFile, List.any_map, Diagnostic.isError_inFile]

theorem presents_of_delivers {run : Run Outlet}
    (delivers : Assembly.Delivers options world (report.inFile name) run) {notes : List Utterance}
    (noted : Speech options world [] notes)
    (heard : run.sink.world.error.content = world.error.content ++ Utterance.transcript notes) :
    Presents report name options world
      ⟨.finished (if run.succeeded then 0 else 2),
        (messages options run).foldl World.say run.sink.world⟩ := by
  have receives : world.Receives options report run.sink.world :=
    ⟨delivers.receives.program, delivers.receives.listing⟩
  refine ⟨receives.foldl_say _, ?_, ?_⟩
  · have failed : run.succeeded = !report.diagnostics.any Diagnostic.isError := by
      rw [← any_inFile name, ← delivers.diagnostics]
      simp [Run.succeeded, ← Array.all_toList, List.all_eq_not_any_not]
    rw [failed]
    cases report.diagnostics.any Diagnostic.isError <;> rfl
  · obtain ⟨last, closed, ends⟩ := closing_said options world run
    rw [delivers.diagnostics] at closed
    refine ⟨notes ++ (_ ++ last), noted.append ((speech_lines _).append closed), ?_⟩
    rw [foldl_say_error, heard, messages, delivers.diagnostics, List.map_append]
    simp only [Utterance.transcript, List.flatMap_append, List.append_assoc] at ends ⊢
    rw [ends]

end Session

/-- All ways through the program agree. Each is seen to give the one report of the source: the same
program, the same listing, the same exit status, and the same diagnostics but for the name. A program
of a source with errors still has all lines that could be translated. -/
theorem routes_agree (content : Bytes) :
    let source : Source := ⟨Assembly.standardInputName, [.piece content]⟩
    let report := (source.assembled false).report
    (report.rows = source.translations ∧
      report.program = source.translations.flatMap fun row => Text.bytes row.program) ∧
    ∀ (options : Options) (name : String) (standardInput : Bytes) (world : World),
      Assembly.Route content name options standardInput world →
        (Session.ofOptions options standardInput world).Presents report name options world := by
  intro source report
  refine ⟨⟨source.rows_eq_translations false, source.content_eq_translations false⟩, ?_⟩
  intro options name standardInput world route
  have delivers := route.delivers
  rw [← Source.report_inFile Assembly.standardInputName] at delivers
  obtain ⟨notes, noted, heard⟩ := Assembly.notes_heard options standardInput route.apart
  rw [Session.ofOptions_regular options route.regular]
  exact Session.presents_of_delivers delivers noted heard

theorem erroneous_source_routes_agree :
    let content := Text.bytes "push 1\nbad\npushchar xy\n"
    let report := ((Source.mk Assembly.standardInputName [.piece content]).assembled false).report
    let world := (World.fresh ["w"]).makeFile "a" content
    let files : Options := ⟨true, some "out", some "list", ["a"]⟩
    let streams : Options := ⟨false, none, none, []⟩
    (Assembly.Route content "a" files [] world ∧
      Assembly.Route content "<stdin>" streams content world) ∧
    (Session.ofOptions files [] world).Presents report "a" files world ∧
    (Session.ofOptions streams content world).Presents report "<stdin>" streams world := by
  intro content report world files streams
  have apart : ¬ world.Names "a" ["w", "out"] := by
    rintro ⟨path, parsed, _, walked⟩
    have known : Path.parse "a" = .ok ⟨false, ["a"], false⟩ := by decide +kernel
    cases known.symm.trans parsed
    exact absurd walked (by decide +kernel)
  have makes : world.MakesFile "out" ["w", "out"] ∧ world.MakesFile "list" ["w", "list"] := by
    constructor <;> exact World.makesFile_iff.mpr ⟨by decide +kernel, .inl (by decide +kernel)⟩
  have elsewhere : ¬ world.MakesFile "out" ["w", "list"] :=
    fun made => absurd (World.makesFile_iff.mp made).1 (by decide +kernel)
  have throughFiles : Assembly.Route content "a" files [] world :=
    ⟨.inr ⟨rfl, by decide +kernel⟩, by simpa [files] using ⟨_, makes.1, apart⟩,
      by simpa [files] using ⟨_, makes.2, elsewhere⟩⟩
  have throughStreams : Assembly.Route content "<stdin>" streams content world :=
    ⟨.inl ⟨rfl, rfl, rfl⟩, by simp [streams], by simp [streams]⟩
  exact ⟨⟨throughFiles, throughStreams⟩, (routes_agree content).2 _ _ _ _ throughFiles,
    (routes_agree content).2 _ _ _ _ throughStreams⟩

end WhitespaceAsm
