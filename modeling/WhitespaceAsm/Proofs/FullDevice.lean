import Mathlib.Data.List.Infix
import WhitespaceAsm.Proofs.Outcome
import WhitespaceAsm.Proofs.Stages

/-! An output that takes no byte. The program stays in the buffer as long as it can; the first line that
does not fit there stops the assembly, and if all lines fit the end of it brings the fault to light. -/
namespace WhitespaceAsm

namespace Diagnostic

def isLossMessage (message : String) : Bool :=
  "Couldn't write the program".toList.isPrefixOf message.toList

def tellsLoss (diagnostic : Diagnostic) : Bool :=
  diagnostic.line.isNone && isLossMessage diagnostic.message

/- What a long enough text begins with does not depend on what follows it. -/
theorem isLossMessage_append {start : String} (long : 26 ≤ start.toList.length) (rest : String) :
    isLossMessage (start ++ rest) = isLossMessage start := by
  have size : "Couldn't write the program".toList.length ≤ start.toList.length := long
  rw [isLossMessage, isLossMessage, Bool.eq_iff_iff, List.isPrefixOf_iff_prefix,
    List.isPrefixOf_iff_prefix, String.toList_append, List.isPrefix_append_of_length size]

theorem isLossMessage_open (fault : Fault) : isLossMessage fault.openMessage = false := by
  unfold Fault.openMessage
  split
  · decide +kernel
  · decide +kernel
  · exact (isLossMessage_append (by decide +kernel) fault.kind).trans (by decide +kernel)

theorem isLossMessage_listing (fault : Fault) :
    isLossMessage s!"Couldn't write the listing: {fault.text}" = false :=
  (isLossMessage_append (by decide +kernel) fault.text).trans (by decide +kernel)

theorem isLossMessage_program (fault : Fault) :
    isLossMessage s!"Couldn't write the program: {fault.text}" = true :=
  (isLossMessage_append (by decide +kernel) fault.text).trans (by decide +kernel)

end Diagnostic

namespace Assembly

def size : List Outcome → Nat
  | [] => 0
  | line :: lines => line.program.length + size lines

/- The line at the index is too long for the buffer, or it does not go there with all lines before. -/
def Overflows (lines : List Outcome) (index : Nat) : Prop :=
  ∃ line, lines[index]? = some line ∧
    (8192 ≤ line.program.length ∨ 8192 < size (lines.take (index + 1)))

theorem size_eq (lines : List Outcome) : size lines = (lines.flatMap Outcome.program).length := by
  induction lines with
  | nil => rfl
  | cons line lines ih => rw [size, ih, List.flatMap_cons, List.length_append]

variable {lines before after : List Outcome} {line : Outcome}

theorem size_append (first second : List Outcome) :
    size (first ++ second) = size first + size second := by
  simp [size_eq]

theorem size_of_allFit (fit : Run.AllFit Outlet.Stays [] lines) : size lines ≤ 8192 := by
  have total : ([] : Bytes).length + (lines.flatMap Outcome.program).length ≤ 8192 :=
    Run.length_of_allFit (fun _ _ stays => stays.2) (by simp) fit
  rwa [List.length_nil, Nat.zero_add, ← size_eq] at total

theorem length_pos_of_unfit (fit : Run.AllFit Outlet.Stays [] before)
    (unfit : ¬ Outlet.Stays (before.flatMap Outcome.program) line.program) :
    0 < line.program.length := by
  have small := size_of_allFit fit
  rw [size_eq] at small
  unfold Outlet.Stays Outlet.bufferSize at unfit
  omega

theorem not_overflows_of_allFit (fit : Run.AllFit Outlet.Stays [] lines) (index : Nat) :
    ¬ Overflows lines index := by
  rintro ⟨line, found, beyond⟩
  obtain ⟨reach, rfl⟩ := List.getElem?_eq_some_iff.mp found
  rw [← List.take_append_drop (index + 1) lines, Run.allFit_append] at fit
  have small := size_of_allFit fit.1
  rw [← List.take_append_getElem reach, Run.allFit_append] at fit
  obtain ⟨⟨-, stays, -⟩, -⟩ := fit
  have short : (lines[index]).program.length < 8192 := stays.1
  omega

theorem overflows_of_unfit (after : List Outcome)
    (unfit : ¬ Outlet.Stays (before.flatMap Outcome.program) line.program) :
    Overflows (before ++ line :: after) before.length := by
  refine ⟨line, by simp, ?_⟩
  rw [Outcome.take_line, size_append, size_eq before]
  simp only [Outlet.Stays, Outlet.bufferSize, size] at unfit ⊢
  omega

/- The first line that leaves the buffer is the first one that overflows it. -/
theorem first_overflow_iff (fit : Run.AllFit Outlet.Stays [] before)
    (unfit : ¬ Outlet.Stays (before.flatMap Outcome.program) line.program) (after : List Outcome)
    (index : Nat) :
    (Overflows (before ++ line :: after) index ∧
      ∀ earlier < index, ¬ Overflows (before ++ line :: after) earlier) ↔ index = before.length := by
  have beyond := overflows_of_unfit after unfit
  have within : ∀ earlier < before.length, ¬ Overflows (before ++ line :: after) earlier := by
    rintro earlier less ⟨other, found, beyond⟩
    apply not_overflows_of_allFit fit earlier
    rw [List.getElem?_append_left less] at found
    rw [List.take_append_of_le_length (by omega)] at beyond
    exact ⟨other, found, beyond⟩
  constructor
  · rintro ⟨here, first⟩
    rcases Nat.lt_trichotomy index before.length with less | same | more
    · exact absurd here (within index less)
    · exact same
    · exact absurd beyond (first _ more)
  · rintro rfl
    exact ⟨beyond, within⟩

/- No line is told of like that, for its diagnostic gives its number. -/
theorem tellsLoss_source (source : Source) :
    ∀ line ∈ source.outcomes, ∀ diagnostic ∈ line.diagnostic?, diagnostic.tellsLoss = false := by
  intro line member diagnostic told
  obtain ⟨⟨content, number⟩, _, rfl⟩ := List.mem_map.mp member
  have numbered := (Outcome.ofLine_numbered source.name number content).2 diagnostic told
  simp [Diagnostic.tellsLoss, numbered]

theorem tellsLoss_inputOutcomes (world : World) (path : String) :
    ∀ line ∈ inputOutcomes world path, ∀ diagnostic ∈ line.diagnostic?,
      diagnostic.tellsLoss = false := by
  unfold inputOutcomes
  cases world.read path with
  | ok content => exact tellsLoss_source _
  | error fault =>
    intro line member diagnostic told
    cases List.mem_singleton.mp member
    cases Option.mem_def.mp told
    exact Diagnostic.isLossMessage_open fault

theorem tellsLoss_outcomes (options : Options) (standardInput : Bytes) (world : World) :
    ∀ line ∈ outcomes options standardInput world, ∀ diagnostic ∈ line.diagnostic?,
      diagnostic.tellsLoss = false := by
  unfold outcomes
  split
  · exact tellsLoss_source _
  · intro line member
    obtain ⟨path, _, found⟩ := List.mem_flatMap.mp member
    exact tellsLoss_inputOutcomes world path line found

theorem countP_outcomes (options : Options) (standardInput : Bytes) (world : World)
    {lines : List Outcome} (within : lines ⊆ outcomes options standardInput world) :
    (lines.filterMap Outcome.diagnostic?).countP Diagnostic.tellsLoss = 0 := by
  apply List.countP_eq_zero.mpr
  intro diagnostic member
  obtain ⟨line, found, tells⟩ := List.mem_filterMap.mp member
  simp [tellsLoss_outcomes options standardInput world line (within found) diagnostic tells]

theorem countP_lost (options : Options) : [lost options].countP Diagnostic.tellsLoss = 1 := by
  simp [lost, Diagnostic.tellsLoss, Diagnostic.ofFile, Diagnostic.isLossMessage_program]

theorem tellsLoss_unlisted (listing : Option String) (fault : Option Fault) :
    ∀ diagnostic ∈ unlisted listing fault, diagnostic.tellsLoss = false := by
  intro diagnostic member
  unfold unlisted at member
  split at member
  · rename_i path fault
    cases List.mem_singleton.mp member
    exact Diagnostic.isLossMessage_listing fault
  · contradiction

theorem Lists.countP_tellsLoss {world : World} {listing : Option String} {rows : List Row}
    {told : List Diagnostic} {run : Run Outlet} (lists : Lists world listing rows told run) :
    run.diagnostics.toList.countP Diagnostic.tellsLoss = told.countP Diagnostic.tellsLoss := by
  have quiet : (unlisted listing (world.list listing rows).2).countP Diagnostic.tellsLoss = 0 := by
    apply List.countP_eq_zero.mpr
    intro diagnostic member
    simp [tellsLoss_unlisted listing _ diagnostic member]
  rw [lists.diagnostics, List.countP_append, quiet, Nat.add_zero]

section Runs

variable (options : Options) (standardInput : Bytes) {world : World}

theorem full_ends {output : String} {place : Location} (asked : options.output = some output)
    (makes : world.Makes output place) (full : world.node? place = some .full) :
    ∃ run, assemble options standardInput world = writeListing options (finish options run) ∧
      Run.Ends (Outlet.Waits world place) Outlet.Stays (fun outlet _ => outlet.world.SameFiles world)
        .noSpace .empty (outcomes options standardInput world) run := by
  obtain ⟨opened, made⟩ := makes
  have same : opened = world := by
    have opening := (World.create_eq_ok_iff.mp made).2
    simp only [World.openAt, full, Except.ok.injEq] at opening
    exact opening.symm
  obtain ⟨noted, same, run⟩ := assemble_made options standardInput asked (same ▸ made)
  have carries : Run.Carries (Outlet.Waits world place)
      { verbose := options.verbose, sink := ⟨noted, .file place .empty⟩ } .empty :=
    ⟨rfl, ⟨⟨.empty, rfl, rfl⟩, same, Nat.zero_le _⟩, rfl, rfl⟩
  exact ⟨_, run, addInputs_ends options standardInput (Outlet.takes_waits world place)
    (Outlet.refuses_waits full) (fun _ _ waits => waits.same) carries⟩

theorem full_carried {place : Location} {run : Run Outlet}
    (carries : run.Carries (Outlet.Waits world place)
      (.empty ++ Report.concat (lines.map Outcome.report)))
    (full : world.node? place = some .full) :
    Lists world options.listing (lines.filterMap Outcome.row?)
      (lines.filterMap Outcome.diagnostic? ++ if size lines = 0 then [] else [lost options])
      (writeListing options (finish options run)) := by
  have nothing : lines.flatMap Outcome.program = [] ↔ size lines = 0 := by
    rw [size_eq, List.length_eq_zero_iff]
  rw [Report.empty_append, Outcome.concat_reports] at carries
  have leaves := finish_waits options carries full
  simp only [nothing] at leaves
  exact writeListing_lists options leaves

theorem full_cut {run : Run Outlet}
    (stuck : run.Stuck (fun outlet _ => outlet.world.SameFiles world) .noSpace
      (.empty ++ Report.concat (before.map Outcome.report) ++
        ⟨line.program, [], line.diagnostic?.toList⟩)) :
    Lists world options.listing (before.filterMap Outcome.row?)
      ((before ++ [line]).filterMap Outcome.diagnostic? ++ [lost options])
      (writeListing options (finish options run)) := by
  have met : (before ++ [line]).filterMap Outcome.diagnostic? =
      before.filterMap Outcome.diagnostic? ++ line.diagnostic?.toList := by
    cases told : line.diagnostic? <;> simp [told]
  have leaves := finish_stuck options stuck
  rw [Report.empty_append, Outcome.concat_reports] at leaves
  simp only [Report.rows_append, Report.diagnostics_append, List.append_nil, ← met] at leaves
  exact writeListing_lists options leaves

theorem working_lists (world : World) :
    Lists world options.listing ((outcomes options standardInput world).filterMap Outcome.row?)
      ((outcomes options standardInput world).filterMap Outcome.diagnostic?)
      (assemble { options with output := none } standardInput world) := by
  obtain ⟨noted, same, output, run⟩ :=
    assemble_standard { options with output := none } standardInput world rfl
  have carries : Run.Carries (Outlet.Prints world)
      { verbose := options.verbose, sink := ⟨noted, .standard⟩ } .empty :=
    ⟨rfl, ⟨rfl, same, by simp [output, Report.empty]⟩, rfl, rfl⟩
  have ends := addInputs_ends { options with output := none } standardInput
    (Outlet.takes_prints world) (Sink.refuses_none _ (fun _ _ => False) .noSpace)
    (fun _ _ prints => prints.same) carries
  rw [run]
  cases ends with
  | carried _ carries =>
    rw [Report.empty_append, Outcome.concat_reports] at carries
    exact writeListing_lists _ (finish_prints _ carries)
  | cut _ _ _ _ _ unfit _ => exact absurd trivial unfit

end Runs

/-- A program for which there is no room is never lost in silence. Its loss is told once, after the first
line that overflows the buffer or else at the end, and the listing has the lines that were taken. What
is asked of the inputs is that reading them comes to an end. -/
theorem full_output_reported (options : Options) (standardInput : Bytes) (world : World)
    (output : String) (place : Location) (asked : options.output = some output)
    (makes : world.Makes output place) (full : world.node? place = some .full)
    (ends : ∀ path ∈ options.inputs, world.ReadsToEnd path) :
    let lines := outcomes options standardInput world
    let run := assemble options standardInput world
    let working := assemble { options with output := none } standardInput world
    let loss := Diagnostic.ofFile output s!"Couldn't write the program: {Fault.noSpace.text}"
    (∀ path ∈ options.inputs,
      (world.opens path = true → ∃ content, world.read path = .ok content ∧
        inputOutcomes world path = (Source.mk path [.piece content]).outcomes) ∧
      (world.opens path = false → ∃ fault : Fault,
        inputOutcomes world path = [.rejected (.ofFile path fault.openMessage)])) ∧
    run.diagnostics.toList.countP Diagnostic.tellsLoss = (if size lines = 0 then 0 else 1) ∧
    ∃ unlisted,
      (∀ index, Overflows lines index → (∀ earlier < index, ¬ Overflows lines earlier) →
        run.rows.toList = (lines.take index).filterMap Outcome.row? ∧
        run.diagnostics.toList =
          (lines.take (index + 1)).filterMap Outcome.diagnostic? ++ [loss] ++ unlisted) ∧
      ((∀ index, ¬ Overflows lines index) →
        run.rows.toList = working.rows.toList ∧
        run.sink.world.node? = working.sink.world.node? ∧
        working.diagnostics.toList = lines.filterMap Outcome.diagnostic? ++ unlisted ∧
        run.diagnostics.toList = lines.filterMap Outcome.diagnostic? ++
          (if size lines = 0 then [] else [loss]) ++ unlisted) ∧
      (unlisted = [] ∨ ∃ path ∈ options.listing, ∃ fault : Fault,
        unlisted = [.ofFile path s!"Couldn't write the listing: {fault.text}"]) ∧
      ∀ path ∈ options.listing, ∀ location, world.MakesFile path location →
        unlisted = [] ∧ run.sink.world.node? location =
          some (.file (Text.bytes (Listing.render run.rows.toList))) := by
  intro lines run working loss
  have told : lost options = loss := by simp only [lost, asked, Option.getD_some, loss]
  refine ⟨fun path given => ⟨inputOutcomes_opened (ends path given), inputOutcomes_shut⟩, ?_⟩
  obtain ⟨last, closed, ended⟩ := full_ends options standardInput asked makes full
  cases ended with
  | carried fit carries =>
    have lists : Lists world _ _ _ run := closed ▸ full_carried options carries full
    have works := working_lists options standardInput world
    refine ⟨?_, _, ?_, ?_, unlisted_cases options.listing _, fun path => lists.listed⟩
    · rw [lists.countP_tellsLoss, List.countP_append,
        countP_outcomes options standardInput world fun _ => id, Nat.zero_add]
      split
      · rfl
      · exact countP_lost options
    · intro index beyond
      exact absurd beyond (not_overflows_of_allFit fit index)
    · intro _
      rw [← told]
      exact ⟨lists.rows.trans works.rows.symm, lists.files.node?.trans works.files.node?.symm,
        works.diagnostics, lists.diagnostics⟩
  | cut before line after split fit unfit stuck =>
    have split : lines = before ++ line :: after := split
    have lists : Lists world _ _ _ run := closed ▸ full_cut options stuck
    refine ⟨?_, _, ?_, ?_, unlisted_cases options.listing _, fun path => lists.listed⟩
    · have some : size lines ≠ 0 := by
        have long := length_pos_of_unfit fit unfit
        rw [split, size_append, size]
        omega
      have within : before ++ [line] ⊆ lines := by simp [split]
      rw [if_neg some, lists.countP_tellsLoss, List.countP_append,
        countP_outcomes options standardInput world within, countP_lost]
    · intro index beyond first
      rw [split] at beyond first
      cases (first_overflow_iff fit unfit after index).mp ⟨beyond, first⟩
      rw [split, Outcome.take_line, List.take_left, ← told]
      exact ⟨lists.rows, lists.diagnostics⟩
    · intro none
      rw [split] at none
      exact absurd (overflows_of_unfit after unfit) (none _)

theorem small_program_reported_lost :
    let options : Options := ⟨true, some "/dev/full", some "list", ["a", "missing", "/dev/null"]⟩
    let world := (World.fresh ["w"]).makeFile "a" (Text.bytes "push 1\nadd 2\n")
    (options.output = some "/dev/full" ∧ world.Makes "/dev/full" ["dev", "full"] ∧
      world.node? ["dev", "full"] = some .full ∧ ∀ path ∈ options.inputs, world.ReadsToEnd path) ∧
      (assemble options [] world).diagnostics.toList.countP Diagnostic.tellsLoss = 1 := by
  intro options world
  have full : world.node? ["dev", "full"] = some .full := by decide +kernel
  have found : world.target "/dev/full" = .ok ["dev", "full"] := by decide +kernel
  have makes : world.Makes "/dev/full" ["dev", "full"] :=
    ⟨world, World.create_eq_ok_iff.mpr ⟨found, by rw [World.openAt, full]⟩⟩
  have ends : ∀ path ∈ options.inputs, world.ReadsToEnd path := by
    unfold World.ReadsToEnd
    decide +kernel
  have some : size (outcomes options [] world) ≠ 0 := by decide +kernel
  have reported :=
    full_output_reported options [] world "/dev/full" ["dev", "full"] rfl makes full ends
  exact ⟨⟨rfl, makes, full, ends⟩, reported.2.1.trans (if_neg some)⟩

end Assembly

end WhitespaceAsm
