import Mathlib.Data.List.Forall2
import WhitespaceAsm.Proofs.Emission
import WhitespaceAsm.Proofs.Lines
import WhitespaceAsm.Proofs.Outcome
import WhitespaceAsm.Proofs.Stages

/-! Files assembled into a file. Each input adds what its content before the assembly makes, wherever it
stands. That holds even where the output is an input of its own, since the program that has
reached the file by then is blank to the assembler. -/
namespace WhitespaceAsm

def Token.Spells (content : Bytes) : Prop := ∀ byte ∈ content, ∃ token : Token, token.byte = byte

theorem Token.exists_text {content : Bytes} (spells : Token.Spells content) :
    ∃ tokens, Text.ofBytes? content = some (Token.text tokens) := by
  have tokens : ∃ tokens, Token.bytes tokens = content := by
    induction content with
    | nil => exact ⟨[], rfl⟩
    | cons byte content ih =>
      obtain ⟨token, rfl⟩ := spells byte List.mem_cons_self
      obtain ⟨tokens, rfl⟩ := ih fun other member => spells other (List.mem_cons_of_mem _ member)
      exact ⟨token :: tokens, rfl⟩
  obtain ⟨tokens, rfl⟩ := tokens
  exact ⟨tokens, Text.ofBytes?_eq_some_iff.mpr (Token.bytes_text tokens)⟩

theorem Statement.plainCommand?_text (tokens : List Token) :
    Statement.plainCommand? (Token.text tokens) = none := by
  apply Statement.plainCommand?_eq_none_iff.mpr
  apply Statement.plainWords_gap
  intro c member
  obtain ⟨token, _, rfl⟩ : ∃ token ∈ tokens, token.char = c := by simpa [Token.text] using member
  cases token <;> rfl

namespace Source

theorem outcomes_spelled (name : String) {content : Bytes} (spells : Token.Spells content) :
    ∀ outcome ∈ (Source.mk name [.piece content]).outcomes, outcome = .blank := by
  intro outcome member
  obtain ⟨⟨line, number⟩, place, rfl⟩ := List.mem_map.mp member
  have found : line ∈ Delivery.lines [.piece content] := List.fst_mem_of_mem_zipIdx place
  obtain ⟨texts, lines⟩ := Delivery.lines_piece content
  obtain ⟨text, _, rfl⟩ : ∃ text ∈ texts, Except.ok text = line := by simpa [lines] using found
  have within : Token.Spells text := by
    refine Delivery.lines_within (fun byte delivered _ => spells byte ?_) found
    simpa [Delivery.events] using delivered
  obtain ⟨tokens, read⟩ := Token.exists_text within
  exact Outcome.ofLine_blank name number read (Statement.plainCommand?_text tokens)

/- A program read as a source adds nothing to any account. -/
theorem report_spelled (name : String) {content : Bytes} (spells : Token.Spells content) :
    Report.concat ((Source.mk name [.piece content]).outcomes.map Outcome.report) = .empty := by
  have blank := outcomes_spelled name spells
  generalize (Source.mk name [.piece content]).outcomes = outcomes at blank
  induction outcomes with
  | nil => rfl
  | cons outcome outcomes ih =>
    obtain ⟨rfl, later⟩ := List.forall_mem_cons.mp blank
    exact ih later

theorem spells_program (source : Source) :
    Token.Spells (source.outcomes.flatMap Outcome.program) := by
  intro byte member
  obtain ⟨outcome, found, written⟩ := List.mem_flatMap.mp member
  obtain ⟨⟨line, number⟩, _, rfl⟩ := List.mem_map.mp found
  rcases Outcome.ofLine_cases source.name line with blank | ⟨_, _, rejected⟩ | accepted
  · simp [blank, Outcome.program] at written
  · simp [rejected, Outcome.program] at written
  · obtain ⟨command, text, program, span, emitted, accepted⟩ := accepted
    obtain ⟨units, rfl⟩ := Command.program_units emitted
    simp only [accepted, Outcome.program, CodeUnit.bytes_text, CodeUnit.program, Token.bytes,
      List.mem_map] at written
    obtain ⟨token, _, same⟩ := written
    exact ⟨token, same⟩

end Source

namespace Assembly

/- What an input adds to an assembly into the file at a place. A path that names the output itself adds
nothing. Any other one counts by its content before the assembly; where it cannot be opened, the
fault is the one that is met once the output is there. -/
inductive Contribution (world : World) (place : Location) (path : String) : Report → Prop
  | itself (named : world.Names path place) : Contribution world place path .empty
  | source {content : Bytes} (unnamed : ¬ world.Names path place)
      (readable : world.read path = .ok content) :
      Contribution world place path ((Source.mk path [.piece content]).assembled false).report
  | unopened {fault : Fault} (unnamed : ¬ world.Names path place) (shut : world.opens path = false)
      (met : (world.put place (.file [])).read path = .error fault) :
      Contribution world place path ⟨[], [], [.ofFile path fault.openMessage]⟩

variable {world : World} {place : Location} {run : Run Outlet} {report : Report} {path : String}

theorem Contribution.spells {share : Report} (contribution : Contribution world place path share) :
    Token.Spells share.program := by
  cases contribution with
  | itself named => simp [Token.Spells, Report.empty]
  | source unnamed readable =>
    rw [Source.assembled_report, Outcome.concat_reports]
    exact Source.spells_program _
  | unopened unnamed shut met => simp [Token.Spells]

theorem addInput_read {holds : Outlet → Bytes → Prop} (takes : Sink.Takes holds fun _ _ => True)
    (carries : run.Carries holds report) {content : Bytes}
    (readable : run.sink.world.read path = .ok content) :
    (addInput run path).Carries holds
      (report ++ Report.concat ((Source.mk path [.piece content]).outcomes.map Outcome.report)) := by
  unfold addInput
  rw [carries.running, readable]
  exact Run.assembleSource_carries takes carries (Run.allFit_any (fun _ _ => trivial) _ _)

theorem addInput_unread (carries : run.Carries (Outlet.Fills world place) report) {fault : Fault}
    (met : run.sink.world.read path = .error fault) :
    (addInput run path).Carries (Outlet.Fills world place)
      (report ++ ⟨[], [], [.ofFile path fault.openMessage]⟩) := by
  unfold addInput
  rw [carries.running, met]
  exact Run.tell_carries carries _

/- One input: part of the program may have reached the output file when it is opened. -/
theorem addInput_fills (vacant : world.Vacant place) (plain : world.find path ≠ .ok .directory)
    (carries : run.Carries (Outlet.Fills world place) report) (spells : Token.Spells report.program) :
    ∃ share, Contribution world place path share ∧
      (addInput run path).Carries (Outlet.Fills world place) (report ++ share) := by
  obtain ⟨written, pending, _, same, content⟩ := carries.sink
  have seen := same.read path
  by_cases named : world.Names path place
  · rw [World.read_put_named vacant named] at seen
    have blank : Token.Spells written := by
      intro byte member
      apply spells
      rw [← content]
      exact List.mem_append_left _ member
    have carries := addInput_read (Outlet.takes_fills world place) carries seen
    rw [Source.report_spelled path blank] at carries
    exact ⟨.empty, .itself named, carries⟩
  · by_cases opened : world.opens path = true
    · obtain ⟨found, readable⟩ := World.exists_read opened plain
      rw [World.read_put_unnamed vacant named readable] at seen
      have carries := addInput_read (Outlet.takes_fills world place) carries seen
      rw [← Source.assembled_report _ false] at carries
      exact ⟨_, .source named readable, carries⟩
    · have shut : world.opens path = false := by simpa using opened
      obtain ⟨fault, met⟩ := World.exists_fault ((World.opens_put vacant named []).trans shut)
      have same : (world.put place (.file written)).read path = .error fault := by
        rw [World.read, World.find_put_put vacant named written []]
        exact met
      rw [same] at seen
      exact ⟨_, .unopened named shut met, addInput_unread carries seen⟩

theorem foldl_fills (vacant : world.Vacant place) {inputs : List String}
    (plain : ∀ path ∈ inputs, world.find path ≠ .ok .directory)
    (carries : run.Carries (Outlet.Fills world place) report) (spells : Token.Spells report.program) :
    ∃ shares, List.Forall₂ (Contribution world place) inputs shares ∧
      (inputs.foldl addInput run).Carries (Outlet.Fills world place)
        (report ++ Report.concat shares) := by
  induction inputs generalizing run report with
  | nil => exact ⟨[], .nil, by simpa using carries⟩
  | cons path inputs ih =>
    obtain ⟨first, later⟩ := List.forall_mem_cons.mp plain
    obtain ⟨share, contribution, carries⟩ := addInput_fills vacant first carries spells
    have spells : Token.Spells (report ++ share).program := by
      intro byte member
      rcases List.mem_append.mp member with member | member
      · exact spells byte member
      · exact contribution.spells byte member
    obtain ⟨shares, contributions, carries⟩ := ih later carries spells
    refine ⟨share :: shares, .cons contribution contributions, ?_⟩
    rw [Report.append_assoc] at carries
    exact carries

/- How an assembly into the file at a place leaves the world: the program is in that file unless the
listing has taken its place, the listing is where it was asked for, and no other file has changed.
Its diagnostics are those of the inputs, and one more if the listing could not be written. -/
structure Deposits (world : World) (place : Location) (listing : Option String) (total : Report)
    (run : Run Outlet) : Prop where
  program : (∀ path ∈ listing, ¬ world.Makes path place) →
    run.sink.world.node? place = some (.file total.program)
  listed : ∀ path ∈ listing, ∀ location, world.MakesFile path location →
    run.sink.world.node? location = some (.file (Text.bytes (Listing.render total.rows)))
  others : ∀ location, location ≠ place → (∀ path ∈ listing, ¬ world.Makes path location) →
    run.sink.world.node? location = world.node? location
  diagnostics : ∃ unlisted, run.diagnostics.toList = total.diagnostics ++ unlisted ∧
    (unlisted = [] ∨ ∃ path ∈ listing, ∃ fault : Fault,
      unlisted = [.ofFile path s!"Couldn't write the listing: {fault.text}"]) ∧
    (∀ path ∈ listing, ∀ location, world.MakesFile path location → unlisted = []) ∧
    ∀ path ∈ listing, (∀ location, ¬ world.Makes path location) → unlisted ≠ []

theorem deposits_of_lists (vacant : world.Vacant place) {total : Report} {listing : Option String}
    (lists : Lists (world.put place (.file total.program)) listing total.rows total.diagnostics run) :
    Deposits world place listing total run := by
  have unmade {location : Location} (away : ∀ path ∈ listing, ¬ world.Makes path location) :
      run.sink.world.node? location = (world.put place (.file total.program)).node? location := by
    rw [lists.files.node?]
    apply World.list_other
    intro path asked
    rw [World.makes_put_iff vacant]
    exact away path asked
  have made {path : String} (asked : path ∈ listing) {location : Location}
      (makes : world.MakesFile path location) :=
    lists.listed asked ((World.makesFile_put_iff vacant total.program).mpr makes)
  constructor
  case program =>
    intro away
    rw [unmade away, World.put_place]
  case listed =>
    intro path asked location makes
    rw [← lists.rows]
    exact (made asked makes).2
  case others =>
    intro location apart away
    rw [unmade away, World.put_other _ _ apart]
  case diagnostics =>
    refine ⟨_, lists.diagnostics, unlisted_cases listing _, ?_, ?_⟩
    · exact fun path asked location makes => (made asked makes).1
    · intro path asked shut
      have shut (location : Location) :
          ¬ (world.put place (.file total.program)).Makes path location := by
        rw [World.makes_put_iff vacant]
        exact shut location
      obtain ⟨fault, failed⟩ := World.list_unmade asked shut total.rows
      rw [failed, Option.mem_def.mp asked]
      exact List.cons_ne_nil _ _

/-- Files assembled into a file. If the output cannot be made there is that one error, and no file has
changed. Otherwise each input makes its contribution, in order, to the program, the listing and the
diagnostics. The output's own path is among those that contribute nothing. -/
theorem files_assembled (world : World) (verbose : Bool) (output : String) (listing : Option String)
    (inputs : List String) (standardInput : Bytes) (given : inputs ≠ [])
    (plain : ∀ path ∈ inputs, world.find path ≠ .ok .directory) :
    (∀ fault, world.create output = .error fault →
      let run := assemble ⟨verbose, some output, listing, inputs⟩ standardInput world
      run.succeeded = false ∧
        run.diagnostics.toList =
          [.ofFile output s!"Couldn't create the output file: {fault.text}"] ∧
        run.sink.world.node? = world.node?) ∧
    ∀ place, world.MakesFile output place → world.Names output place ∧
      ∃ shares, List.Forall₂ (Contribution world place) inputs shares ∧
        Deposits world place listing (Report.concat shares)
          (assemble ⟨verbose, some output, listing, inputs⟩ standardInput world) := by
  constructor
  · intro fault unmade run
    have leaves : run.Leaves world [] _ := assemble_unmade _ standardInput rfl unmade
    refine ⟨?_, leaves.diagnostics, leaves.files.node?⟩
    rw [Run.succeeded, ← Array.all_toList, leaves.diagnostics]
    rfl
  · intro place makes
    obtain ⟨found, vacant⟩ := World.makesFile_iff.mp makes
    obtain ⟨noted, same, run⟩ :=
      assemble_made ⟨verbose, some output, listing, inputs⟩ standardInput rfl
        (World.create_eq_ok_iff.mpr ⟨found, World.openAt_vacant vacant⟩)
    have carries : Run.Carries (Outlet.Fills world place)
        { verbose := verbose, sink := ⟨noted, .file place .empty⟩ } .empty :=
      ⟨rfl, ⟨[], .empty, rfl, same, rfl⟩, rfl, rfl⟩
    obtain ⟨shares, contributions, carries⟩ :=
      foldl_fills vacant plain carries (by simp [Token.Spells, Report.empty])
    refine ⟨World.names_of_target found, shares, contributions, deposits_of_lists vacant ?_⟩
    rw [run, proceed, addInputs, if_neg (by simpa using given)]
    exact writeListing_lists _ (finish_fills _ carries)

theorem output_among_inputs_assembled :
    let world := ((World.fresh ["w"]).makeFile "a" (Text.bytes "push 1\n")).makeFile "out"
      (Text.bytes "add\n")
    let inputs := ["a", "missing", "./out", "a"]
    (inputs ≠ [] ∧ ∀ path ∈ inputs, world.find path ≠ .ok .directory) ∧
      world.MakesFile "out" ["w", "out"] ∧ world.Names "out" ["w", "out"] ∧
      ∃ shares, List.Forall₂ (Contribution world ["w", "out"]) inputs shares ∧
        Deposits world ["w", "out"] (some "list") (Report.concat shares)
          (assemble ⟨true, some "out", some "list", inputs⟩ [] world) := by
  intro world inputs
  have given : inputs ≠ [] := by decide
  have plain : ∀ path ∈ inputs, world.find path ≠ .ok .directory := by decide +kernel
  have makes : world.MakesFile "out" ["w", "out"] :=
    World.makesFile_iff.mpr ⟨by decide +kernel, .inr ⟨Text.bytes "add\n", by decide +kernel⟩⟩
  exact ⟨⟨given, plain⟩, makes,
    (files_assembled world true "out" (some "list") inputs [] given plain).2 _ makes⟩

end Assembly

end WhitespaceAsm
