import WhitespaceAsm.Proofs.Outlets

/-! The stages of an assembly around its inputs: the outlet is opened, what waits in it is handed on at
the end, and then the listing is written. Each leaves the files in a known state. -/
namespace WhitespaceAsm

/- The world after a listing was asked for, and what kept it from being written. -/
def World.list (world : World) (listing : Option String) (rows : List Row) : World × Option Fault :=
  match listing with
  | none => (world, none)
  | some path => world.write path (Text.bytes (Listing.render rows))

namespace World

variable {world : World} {listing : Option String} {path : String} {location : Location}

theorem list_file (asked : path ∈ listing) (made : world.MakesFile path location) (rows : List Row) :
    world.list listing rows =
      (world.put location (.file (Text.bytes (Listing.render rows))), none) := by
  cases Option.mem_def.mp asked
  exact write_file made _

theorem list_unmade (asked : path ∈ listing) (unmade : ∀ location, ¬ world.Makes path location)
    (rows : List Row) : ∃ fault, world.list listing rows = (world, some fault) := by
  cases Option.mem_def.mp asked
  exact write_unmade unmade _

theorem list_other (unmade : ∀ path ∈ listing, ¬ world.Makes path location) (rows : List Row) :
    (world.list listing rows).1.node? location = world.node? location := by
  cases listing with
  | none => rfl
  | some path => exact write_other (unmade path rfl) _

end World

namespace Run

structure Leaves (run : Run Outlet) (files : World) (rows : List Row)
    (diagnostics : List Diagnostic) : Prop where
  files : run.sink.world.SameFiles files
  rows : run.rows.toList = rows
  diagnostics : run.diagnostics.toList = diagnostics

variable {run : Run Outlet} {files : World} {rows : List Row} {diagnostics : List Diagnostic}

theorem note_leaves (leaves : run.Leaves files rows diagnostics) (text : String) :
    (run.note text).Leaves files rows diagnostics := by
  unfold note
  split
  · exact ⟨(run.sink.note_world text).2.trans leaves.files, leaves.rows, leaves.diagnostics⟩
  · exact leaves

theorem tell_leaves (leaves : run.Leaves files rows diagnostics) (diagnostic : Diagnostic) :
    (run.tell diagnostic).Leaves files rows (diagnostics ++ [diagnostic]) :=
  ⟨leaves.files, leaves.rows, by simp [tell, leaves.diagnostics]⟩

end Run

namespace Assembly

variable (options : Options) (standardInput : Bytes) {world : World} {run : Run Outlet}

theorem start_eq (world : World) :
    ∃ noted, noted.SameFiles world ∧ noted.output = world.output ∧
      start options world = { verbose := options.verbose, sink := ⟨noted, .standard⟩ } := by
  unfold start Run.note
  split
  · exact ⟨_, .send world .error _, rfl, rfl⟩
  · exact ⟨world, .refl world, rfl, rfl⟩

theorem assemble_unmade {path : String} (asked : options.output = some path) {fault : Fault}
    (unmade : world.create path = .error fault) :
    (assemble options standardInput world).Leaves world []
      [.ofFile path s!"Couldn't create the output file: {fault.text}"] := by
  obtain ⟨noted, same, _, start⟩ := start_eq options world
  have failed : noted.create path = .error fault := by
    rcases same.create path with ⟨other, here, there⟩ | ⟨_, _, _, _, there, _⟩
    · rw [here, ← there, unmade]
    · rw [unmade] at there
      contradiction
  unfold assemble
  rw [start, asked]
  simp only [openOutlet, failed, Except.map, Option.getD_some]
  exact ⟨same, rfl, rfl⟩

theorem assemble_opened {path : String} (asked : options.output = some path) {opened : World}
    {place : Location} (made : world.create path = .ok (opened, place)) :
    ∃ noted, noted.SameFiles opened ∧ noted.output = world.output ∧
      assemble options standardInput world = proceed options standardInput
        { verbose := options.verbose, sink := ⟨noted, .file place .empty⟩ } := by
  obtain ⟨noted, same, output, start⟩ := start_eq options world
  unfold assemble
  rw [start, asked]
  rcases same.create path with ⟨_, _, there⟩ | ⟨x, y, place, here, there, same⟩
  · rw [made] at there
    contradiction
  · rw [made] at there
    cases there
    have streams := World.openAt_streams (World.create_eq_ok_iff.mp here).2
    refine ⟨x, same, streams.1.trans output, ?_⟩
    simp only [openOutlet, here, Except.map]

theorem assemble_made {path : String} (asked : options.output = some path) {opened : World}
    {place : Location} (made : world.create path = .ok (opened, place)) :
    ∃ noted, noted.SameFiles opened ∧
      assemble options standardInput world = proceed options standardInput
        { verbose := options.verbose, sink := ⟨noted, .file place .empty⟩ } := by
  obtain ⟨noted, same, _, run⟩ := assemble_opened options standardInput asked made
  exact ⟨noted, same, run⟩

theorem assemble_standard (world : World) (asked : options.output = none) :
    ∃ noted, noted.SameFiles world ∧ noted.output = world.output ∧
      assemble options standardInput world = proceed options standardInput
        { verbose := options.verbose, sink := ⟨noted, .standard⟩ } := by
  obtain ⟨noted, same, output, start⟩ := start_eq options world
  refine ⟨noted, same, output, ?_⟩
  unfold assemble
  rw [start, asked]
  rfl

/- All that is assembled, in order: the lines of the inputs, and in place of an input that cannot be
opened what is told of it. -/
def inputOutcomes (world : World) (path : String) : List Outcome :=
  match world.read path with
  | .ok content => (Source.mk path [.piece content]).outcomes
  | .error fault => [.rejected (.ofFile path fault.openMessage)]

def outcomes (world : World) : List Outcome :=
  if options.inputs.isEmpty then (Source.mk standardInputName [.piece standardInput]).outcomes
  else options.inputs.flatMap (inputOutcomes world)

theorem inputOutcomes_opened {path : String} (ends : world.ReadsToEnd path)
    (opened : world.opens path = true) :
    ∃ content, world.read path = .ok content ∧
      inputOutcomes world path = (Source.mk path [.piece content]).outcomes := by
  obtain ⟨content, read⟩ := World.exists_read opened ends.1
  refine ⟨content, read, ?_⟩
  rw [inputOutcomes, read]

theorem inputOutcomes_shut {path : String} (shut : world.opens path = false) :
    ∃ fault : Fault, inputOutcomes world path = [.rejected (.ofFile path fault.openMessage)] := by
  obtain ⟨fault, met⟩ := World.exists_fault shut
  refine ⟨fault, ?_⟩
  rw [inputOutcomes, met]

theorem foldl_addInput_stopped {fault : Fault} (stopped : run.fault = some fault)
    (inputs : List String) : inputs.foldl addInput run = run := by
  have one : ∀ path, addInput run path = run := by
    intro path
    unfold addInput
    rw [stopped]
  induction inputs with
  | nil => rfl
  | cons path inputs ih => rw [List.foldl_cons, one, ih]

section Inputs

variable {holds stuck : Outlet → Bytes → Prop} {fits : Bytes → Bytes → Prop} {fault : Fault}
  {report : Report} (takes : Sink.Takes holds fits)
  (refuses : Sink.Refuses holds fits stuck fault)
  (still : ∀ outlet content, holds outlet content → outlet.world.SameFiles world)
include takes refuses still

theorem addInput_ends (carries : run.Carries holds report) (path : String) :
    Run.Ends holds fits stuck fault report (inputOutcomes world path) (addInput run path) := by
  unfold addInput inputOutcomes
  rw [carries.running, (still _ _ carries.sink).read path]
  cases world.read path with
  | ok content => exact Run.assembleSource_ends takes refuses carries _
  | error fault =>
    exact .carried ⟨refuses.idle carries.sink, trivial⟩ (Run.tell_carries carries _)

theorem foldl_addInput_ends (carries : run.Carries holds report) (inputs : List String) :
    Run.Ends holds fits stuck fault report (inputs.flatMap (inputOutcomes world))
      (inputs.foldl addInput run) := by
  induction inputs generalizing run report with
  | nil => exact .carried trivial (by simpa using carries)
  | cons path inputs ih =>
    apply (addInput_ends takes refuses still carries path).append ih
    exact fun stopped => foldl_addInput_stopped stopped inputs

theorem addInputs_ends (carries : run.Carries holds report) :
    Run.Ends holds fits stuck fault report (outcomes options standardInput world)
      (addInputs options standardInput run) := by
  unfold addInputs outcomes
  split
  · exact Run.assembleSource_ends takes refuses (Run.note_carries takes carries _) _
  · exact foldl_addInput_ends takes refuses still carries options.inputs

end Inputs

def unlisted (listing : Option String) (fault : Option Fault) : List Diagnostic :=
  match listing, fault with
  | some path, some fault => [.ofFile path s!"Couldn't write the listing: {fault.text}"]
  | _, _ => []

theorem unlisted_cases (listing : Option String) (fault : Option Fault) :
    unlisted listing fault = [] ∨ ∃ path ∈ listing, ∃ met : Fault,
      unlisted listing fault = [.ofFile path s!"Couldn't write the listing: {met.text}"] := by
  cases listing with
  | none => exact .inl rfl
  | some path =>
    cases fault with
    | none => exact .inl rfl
    | some fault => exact .inr ⟨path, rfl, fault, rfl⟩

def Lists (files : World) (listing : Option String) (rows : List Row) (told : List Diagnostic)
    (run : Run Outlet) : Prop :=
  run.Leaves (files.list listing rows).1 rows (told ++ unlisted listing (files.list listing rows).2)

theorem Lists.listed {files : World} {listing : Option String} {rows : List Row}
    {told : List Diagnostic} (lists : Lists files listing rows told run) {path : String}
    (asked : path ∈ listing) {location : Location} (makes : files.MakesFile path location) :
    unlisted listing (files.list listing rows).2 = [] ∧
      run.sink.world.node? location =
        some (.file (Text.bytes (Listing.render run.rows.toList))) := by
  rw [lists.rows, lists.files.node?, World.list_file asked makes, World.put_place]
  exact ⟨by cases listing <;> rfl, rfl⟩

theorem writeListing_lists {files : World} {rows : List Row} {told : List Diagnostic}
    (leaves : run.Leaves files rows told) :
    Lists files options.listing rows told (writeListing options run) := by
  unfold writeListing Lists World.list
  cases options.listing with
  | none => simpa [unlisted] using leaves
  | some path =>
    have noted := Run.note_leaves leaves s!"Writing listing to '{path}'..."
    obtain ⟨same, fault⟩ := noted.files.write path (Text.bytes (Listing.render rows))
    simp only [leaves.rows, fault]
    cases (files.write path (Text.bytes (Listing.render rows))).2 with
    | none => exact ⟨same, noted.rows, by simpa [unlisted] using noted.diagnostics⟩
    | some fault =>
      apply Run.tell_leaves
      exact ⟨same, noted.rows, noted.diagnostics⟩

section Finish

variable {files : World} {place : Location} {report : Report}

theorem finish_fills (carries : run.Carries (Outlet.Fills files place) report) :
    (finish options run).Leaves (files.put place (.file report.program)) report.rows
      report.diagnostics := by
  obtain ⟨world, flushed, same⟩ := Outlet.flush_fills carries.sink
  unfold finish
  rw [carries.running]
  simp only [flushed]
  exact ⟨same, carries.rows, carries.diagnostics⟩

theorem finish_prints (carries : run.Carries (Outlet.Prints files) report) :
    (finish options run).Leaves files report.rows report.diagnostics := by
  have flushed : run.sink.flush = (run.sink, none) := by simp [Outlet.flush, carries.sink.target]
  unfold finish
  rw [carries.running]
  simp only [flushed]
  exact ⟨carries.sink.same, carries.rows, carries.diagnostics⟩

def lost : Diagnostic :=
  .ofFile (options.output.getD standardOutputName)
    s!"Couldn't write the program: {Fault.noSpace.text}"

theorem finish_waits (carries : run.Carries (Outlet.Waits files place) report)
    (full : files.node? place = some .full) :
    (finish options run).Leaves files report.rows
      (report.diagnostics ++ if report.program = [] then [] else [lost options]) := by
  obtain ⟨next, flushed, waits⟩ := Outlet.flush_waits carries.sink full
  unfold finish
  rw [carries.running]
  simp only [flushed]
  by_cases nothing : report.program = []
  · simp only [if_pos nothing, List.append_nil]
    exact ⟨waits.same, carries.rows, carries.diagnostics⟩
  · simp only [if_neg nothing]
    apply Run.tell_leaves
    exact ⟨waits.same, carries.rows, carries.diagnostics⟩

theorem finish_stuck
    (stuck : run.Stuck (fun outlet _ => outlet.world.SameFiles files) .noSpace report) :
    (finish options run).Leaves files report.rows (report.diagnostics ++ [lost options]) := by
  unfold finish
  simp only [stuck.stopped]
  apply Run.tell_leaves
  exact ⟨stuck.sink, stuck.rows, stuck.diagnostics⟩

end Finish

end Assembly

end WhitespaceAsm
