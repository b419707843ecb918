import WhitespaceAsm.Proofs.Report

/-! Runs over any sink. Which bytes a sink has taken is said by a relation of its own; it is enough to
know of each single write whether it goes through. Lines are then carried out one by one, up to the
first one whose bytes the sink refuses. A store is such a sink, and one without a limit refuses
nothing, so that all that a source comes to can be seen there. -/
namespace WhitespaceAsm

variable {σ : Type}

/- The sink takes bytes that fit those it has taken before, and does not mind notes. -/
structure Sink.Takes [Sink σ] (holds : σ → Bytes → Prop) (fits : Bytes → Bytes → Prop) : Prop where
  note {sink : σ} {taken : Bytes} : holds sink taken → ∀ text, holds (Sink.note sink text) taken
  write {sink : σ} {taken bytes : Bytes} : holds sink taken → fits taken bytes →
    ∃ next, Sink.write sink bytes = (next, none) ∧ holds next (taken ++ bytes)

/- All others it refuses in the same way, and is stuck with what it was offered up to then. Nothing at
all is never refused. -/
structure Sink.Refuses [Sink σ] (holds : σ → Bytes → Prop) (fits : Bytes → Bytes → Prop)
    (stuck : σ → Bytes → Prop) (fault : Fault) : Prop where
  idle {sink : σ} {taken : Bytes} : holds sink taken → fits taken []
  write {sink : σ} {taken bytes : Bytes} : holds sink taken → ¬ fits taken bytes →
    ∃ next, Sink.write sink bytes = (next, some fault) ∧ stuck next (taken ++ bytes)

/- Something that no note and no write changes can be known of the sink besides. -/
theorem Sink.Takes.knowing [Sink σ] {holds : σ → Bytes → Prop} {fits : Bytes → Bytes → Prop}
    {also : σ → Prop} (takes : Sink.Takes holds fits)
    (note : ∀ sink text, also sink → also (Sink.note sink text))
    (write : ∀ sink taken bytes, holds sink taken → also sink → also (Sink.write sink bytes).1) :
    Sink.Takes (fun sink taken => holds sink taken ∧ also sink) fits where
  note held text := ⟨takes.note held.1 text, note _ text held.2⟩
  write {_ _ bytes} held fit := by
    obtain ⟨next, written, kept⟩ := takes.write held.1 fit
    have known := write _ _ bytes held.1 held.2
    rw [written] at known
    exact ⟨next, written, kept, known⟩

/- A sink that takes all bytes has none to refuse. -/
theorem Sink.refuses_none [Sink σ] (holds stuck : σ → Bytes → Prop) (fault : Fault) :
    Sink.Refuses holds (fun _ _ => True) stuck fault where
  idle _ := trivial
  write _ unfit := absurd trivial unfit

namespace Run

/- The run goes on, and has written, listed and told all that is in the report. -/
structure Carries (holds : σ → Bytes → Prop) (run : Run σ) (report : Report) : Prop where
  running : run.fault = none
  sink : holds run.sink report.program
  rows : run.rows.toList = report.rows
  diagnostics : run.diagnostics.toList = report.diagnostics

/- A write has stopped the run after it had listed and told what is in the report, and offered its
program to the sink. -/
structure Stuck (stuck : σ → Bytes → Prop) (fault : Fault) (run : Run σ) (report : Report) : Prop where
  stopped : run.fault = some fault
  sink : stuck run.sink report.program
  rows : run.rows.toList = report.rows
  diagnostics : run.diagnostics.toList = report.diagnostics

variable {holds stuck : σ → Bytes → Prop} {fits : Bytes → Bytes → Prop} {fault : Fault} {run : Run σ}
  {report : Report}

def AllFit (fits : Bytes → Bytes → Prop) (taken : Bytes) : List Outcome → Prop
  | [] => True
  | outcome :: later => fits taken outcome.program ∧ AllFit fits (taken ++ outcome.program) later

theorem allFit_append {taken : Bytes} {before after : List Outcome} :
    AllFit fits taken (before ++ after) ↔
      AllFit fits taken before ∧ AllFit fits (taken ++ before.flatMap Outcome.program) after := by
  induction before generalizing taken with
  | nil => simp [AllFit]
  | cons outcome before ih => simp [AllFit, ih, and_assoc]

theorem allFit_any (any : ∀ taken bytes, fits taken bytes) (taken : Bytes) (outcomes : List Outcome) :
    AllFit fits taken outcomes := by
  induction outcomes generalizing taken with
  | nil => trivial
  | cons outcome outcomes ih => exact ⟨any _ _, ih _⟩

theorem length_of_allFit {limit : Nat}
    (bounded : ∀ taken bytes, fits taken bytes → taken.length + bytes.length ≤ limit) {taken : Bytes}
    (within : taken.length ≤ limit) {outcomes : List Outcome} (fit : AllFit fits taken outcomes) :
    taken.length + (outcomes.flatMap Outcome.program).length ≤ limit := by
  induction outcomes generalizing taken with
  | nil => exact within
  | cons outcome outcomes ih =>
    obtain ⟨first, later⟩ := fit
    have rest := ih (by simpa using bounded _ _ first) later
    simpa [Nat.add_assoc] using rest

theorem exists_unfit {taken : Bytes} {outcomes : List Outcome}
    (unfit : ¬ AllFit fits taken outcomes) :
    ∃ before outcome after, outcomes = before ++ outcome :: after ∧ AllFit fits taken before ∧
      ¬ fits (taken ++ before.flatMap Outcome.program) outcome.program := by
  induction outcomes generalizing taken with
  | nil => exact absurd trivial unfit
  | cons outcome outcomes ih =>
    by_cases fit : fits taken outcome.program
    · obtain ⟨before, next, after, split, fits, stops⟩ := ih fun later => unfit ⟨fit, later⟩
      refine ⟨outcome :: before, next, after, congrArg _ split, ⟨fit, fits⟩, ?_⟩
      rwa [List.flatMap_cons, ← List.append_assoc]
    · exact ⟨[], outcome, outcomes, rfl, trivial, by simpa using fit⟩

/- How a run ends that has carried out lines: they all fit, or there is a first one that does not, and
nothing after it counts. -/
inductive Ends (holds : σ → Bytes → Prop) (fits : Bytes → Bytes → Prop) (stuck : σ → Bytes → Prop)
    (fault : Fault) (report : Report) (outcomes : List Outcome) (run : Run σ) : Prop
  | carried (fit : AllFit fits report.program outcomes)
      (carries : run.Carries holds (report ++ Report.concat (outcomes.map Outcome.report)))
  | cut (before : List Outcome) (outcome : Outcome) (after : List Outcome)
      (split : outcomes = before ++ outcome :: after) (fit : AllFit fits report.program before)
      (unfit : ¬ fits (report.program ++ before.flatMap Outcome.program) outcome.program)
      (stopped : run.Stuck stuck fault (report ++ Report.concat (before.map Outcome.report) ++
        ⟨outcome.program, [], outcome.diagnostic?.toList⟩))

/- Lines that follow are carried out only if all the lines before them fit. -/
theorem Ends.append {next : Run σ} {first second : List Outcome}
    (ended : Ends holds fits stuck fault report first run)
    (later : run.Carries holds (report ++ Report.concat (first.map Outcome.report)) →
      Ends holds fits stuck fault (report ++ Report.concat (first.map Outcome.report)) second next)
    (stays : run.fault = some fault → next = run) :
    Ends holds fits stuck fault report (first ++ second) next := by
  have program : (report ++ Report.concat (first.map Outcome.report)).program =
      report.program ++ first.flatMap Outcome.program := by
    rw [Outcome.concat_reports]
    rfl
  have reports (more : List Outcome) : report ++ Report.concat ((first ++ more).map Outcome.report) =
      report ++ Report.concat (first.map Outcome.report) ++
        Report.concat (more.map Outcome.report) := by
    rw [List.map_append, Report.concat_append, Report.append_assoc]
  cases ended with
  | carried fit carries =>
    cases later carries with
    | carried fits carries =>
      rw [program] at fits
      rw [← reports] at carries
      exact .carried (allFit_append.mpr ⟨fit, fits⟩) carries
    | cut before outcome after split fits unfit stopped =>
      rw [program] at fits unfit
      rw [← reports] at stopped
      refine .cut (first ++ before) outcome after ?_ (allFit_append.mpr ⟨fit, fits⟩) ?_ stopped
      · rw [split, List.append_assoc]
      · rwa [List.flatMap_append, ← List.append_assoc]
  | cut before outcome after split fit unfit stopped =>
    rw [stays stopped.stopped]
    refine .cut before outcome (after ++ second) ?_ fit unfit stopped
    rw [split, List.append_assoc, List.cons_append]

theorem tell_carries (carries : run.Carries holds report) (diagnostic : Diagnostic) :
    (run.tell diagnostic).Carries holds (report ++ ⟨[], [], [diagnostic]⟩) := by
  constructor
  · exact carries.running
  · simpa [tell] using carries.sink
  · simpa [tell] using carries.rows
  · simp [tell, carries.diagnostics]

theorem tellAny_carries (carries : run.Carries holds report) (warning : Option Diagnostic) :
    (run.tellAny warning).Carries holds (report ++ ⟨[], [], warning.toList⟩) := by
  cases warning with
  | some diagnostic => exact tell_carries carries diagnostic
  | none =>
    rw [show report ++ ⟨[], [], Option.none.toList⟩ = report from Report.append_empty report]
    exact carries

variable [Sink σ]

theorem note_carries (takes : Sink.Takes holds fits) (carries : run.Carries holds report)
    (text : String) : (run.note text).Carries holds report := by
  unfold note
  split
  · exact ⟨carries.running, takes.note carries.sink text, carries.rows, carries.diagnostics⟩
  · exact carries

theorem announce_carries (takes : Sink.Takes holds fits) (carries : run.Carries holds report)
    (text : String) (warning : Option Diagnostic) :
    ((run.note text).tellAny warning).Carries holds (report ++ ⟨[], [], warning.toList⟩) :=
  tellAny_carries (note_carries takes carries text) warning

theorem write_carries (takes : Sink.Takes holds fits) (carries : run.Carries holds report) {row : Row}
    (fit : fits report.program (Text.bytes row.program)) :
    (run.write row).Carries holds (report ++ ⟨Text.bytes row.program, [row], []⟩) := by
  obtain ⟨next, written, held⟩ := takes.write carries.sink fit
  rw [write, written]
  refine ⟨carries.running, held, ?_, ?_⟩
  · simp [carries.rows]
  · simp [carries.diagnostics]

theorem write_stuck (refuses : Sink.Refuses holds fits stuck fault)
    (carries : run.Carries holds report) {row : Row}
    (unfit : ¬ fits report.program (Text.bytes row.program)) :
    (run.write row).Stuck stuck fault (report ++ ⟨Text.bytes row.program, [], []⟩) := by
  obtain ⟨next, refused, left⟩ := refuses.write carries.sink unfit
  rw [write, refused]
  refine ⟨rfl, left, ?_, ?_⟩
  · simp [carries.rows]
  · simp [carries.diagnostics]

theorem step_carries (takes : Sink.Takes holds fits) (carries : run.Carries holds report)
    (file : String) {outcome : Outcome} (fit : fits report.program outcome.program) :
    (run.step file outcome).Carries holds (report ++ outcome.report) := by
  unfold step
  rw [carries.running]
  cases outcome with
  | blank =>
    rw [show report ++ Outcome.report .blank = report from Report.append_empty report]
    exact carries
  | rejected diagnostic => exact tell_carries carries diagnostic
  | accepted mnemonic row warning =>
    have same : report ++ Outcome.report (.accepted mnemonic row warning) =
        report ++ ⟨[], [], warning.toList⟩ ++ ⟨Text.bytes row.program, [row], []⟩ := by
      ext1 <;> simp [Outcome.report, Outcome.program, Outcome.row?, Outcome.diagnostic?]
    rw [same]
    apply write_carries takes (announce_carries takes carries _ warning)
    simpa [Outcome.program] using fit

/- One line that does not fit stops the run. It is a line with a program, so its diagnostic is a
warning, which has been told by then. -/
theorem step_stuck (takes : Sink.Takes holds fits) (refuses : Sink.Refuses holds fits stuck fault)
    (carries : run.Carries holds report) (file : String) (outcome : Outcome)
    (unfit : ¬ fits report.program outcome.program) :
    (run.step file outcome).Stuck stuck fault
      (report ++ ⟨outcome.program, [], outcome.diagnostic?.toList⟩) := by
  have idle := refuses.idle carries.sink
  unfold step
  rw [carries.running]
  cases outcome with
  | blank => exact absurd idle unfit
  | rejected diagnostic => exact absurd idle unfit
  | accepted mnemonic row warning =>
    have same : report ++ ⟨Text.bytes row.program, [], warning.toList⟩ =
        report ++ ⟨[], [], warning.toList⟩ ++ ⟨Text.bytes row.program, [], []⟩ := by
      ext1 <;> simp
    change Stuck stuck fault _ (report ++ ⟨Text.bytes row.program, [], warning.toList⟩)
    rw [same]
    apply write_stuck refuses (announce_carries takes carries _ warning)
    simpa [Outcome.program] using unfit

theorem foldl_stopped (stopped : run.fault = some fault) (file : String) (outcomes : List Outcome) :
    outcomes.foldl (step file) run = run := by
  have one : ∀ outcome, run.step file outcome = run := by
    intro outcome
    unfold step
    rw [stopped]
  induction outcomes with
  | nil => rfl
  | cons outcome outcomes ih => rw [List.foldl_cons, one, ih]

theorem foldl_carries (takes : Sink.Takes holds fits) (carries : run.Carries holds report)
    (file : String) {outcomes : List Outcome} (fit : AllFit fits report.program outcomes) :
    (outcomes.foldl (step file) run).Carries holds
      (report ++ Report.concat (outcomes.map Outcome.report)) := by
  induction outcomes generalizing run report with
  | nil => simpa using carries
  | cons outcome outcomes ih =>
    rw [List.map_cons, Report.concat_cons, ← Report.append_assoc]
    exact ih (step_carries takes carries file fit.1) fit.2

theorem foldl_ends (takes : Sink.Takes holds fits) (refuses : Sink.Refuses holds fits stuck fault)
    (carries : run.Carries holds report) (file : String) (outcomes : List Outcome) :
    Ends holds fits stuck fault report outcomes (outcomes.foldl (step file) run) := by
  by_cases fit : AllFit fits report.program outcomes
  · exact .carried fit (foldl_carries takes carries file fit)
  · obtain ⟨before, outcome, after, rfl, fit, unfit⟩ := exists_unfit fit
    have reached := foldl_carries takes carries file fit
    have stopped := step_stuck takes refuses reached file outcome (by
      rw [Outcome.concat_reports]
      exact unfit)
    refine .cut before outcome after rfl fit unfit ?_
    rw [List.foldl_append, List.foldl_cons, foldl_stopped stopped.stopped]
    exact stopped

theorem assembleSource_carries (takes : Sink.Takes holds fits) (carries : run.Carries holds report)
    {source : Source} (fit : AllFit fits report.program source.outcomes) :
    (run.assembleSource source).Carries holds
      (report ++ Report.concat (source.outcomes.map Outcome.report)) := by
  unfold assembleSource
  rw [carries.running]
  exact foldl_carries takes (note_carries takes carries _) source.name fit

theorem assembleSource_ends (takes : Sink.Takes holds fits)
    (refuses : Sink.Refuses holds fits stuck fault) (carries : run.Carries holds report)
    (source : Source) :
    Ends holds fits stuck fault report source.outcomes (run.assembleSource source) := by
  unfold assembleSource
  rw [carries.running]
  exact foldl_ends takes refuses (note_carries takes carries _) source.name source.outcomes

theorem tellAny_sink {σ : Type} (run : Run σ) (warning : Option Diagnostic) :
    (run.tellAny warning).fault = run.fault ∧ (run.tellAny warning).sink = run.sink := by
  cases warning <;> exact ⟨rfl, rfl⟩

end Run

namespace Store

def Fits (base : Store) (taken bytes : Bytes) : Prop :=
  ∀ room ∈ base.room, taken.length + bytes.length ≤ room

/- The store has come from the base by taking these bytes, for which there was room. -/
structure Keeps (base store : Store) (taken : Bytes) : Prop where
  content : store.content = base.content ++ taken
  room : store.room = base.room.map (· - taken.length)
  whenFull : store.whenFull = base.whenFull
  within : base.Fits taken []

def Cut (base store : Store) (offered : Bytes) : Prop :=
  ∃ room ∈ base.room, store.content = base.content ++ offered.take room

theorem keeps_self (base : Store) : base.Keeps base [] := by
  refine ⟨by simp, by simp, rfl, ?_⟩
  intro room _
  exact Nat.zero_le room

theorem write_fits {store : Store} {bytes : Bytes}
    (small : ∀ room ∈ store.room, bytes.length ≤ room) :
    store.write bytes =
      (⟨store.kept.push bytes, store.room.map (· - bytes.length), store.whenFull⟩, none) := by
  obtain ⟨kept, limit, whenFull⟩ := store
  cases limit with
  | none => rfl
  | some room =>
    have fits : bytes.length ≤ room := small room rfl
    simp only [write, List.take_of_length_le fits, if_neg (Nat.not_lt.mpr fits), Option.map_some]

theorem write_cut {store : Store} {room : Nat} (limit : store.room = some room) {bytes : Bytes}
    (large : room < bytes.length) :
    store.write bytes =
      (⟨store.kept.push (bytes.take room), some (room - bytes.length), store.whenFull⟩,
        some store.whenFull) := by
  simp only [write, limit, if_pos large]

theorem takes_keeps (base : Store) : Sink.Takes base.Keeps base.Fits where
  note held _ := held
  write {store taken bytes} held fit := by
    have small : ∀ room ∈ store.room, bytes.length ≤ room := by
      intro left known
      rw [held.room, Option.mem_def, Option.map_eq_some_iff] at known
      obtain ⟨room, limit, rfl⟩ := known
      have := fit room limit
      omega
    refine ⟨_, write_fits small, ?_, ?_, held.whenFull, ?_⟩
    · rw [← List.append_assoc, ← held.content]
      exact Tape.content_push _ _
    · simp only [held.room, Option.map_map, Function.comp_def, List.length_append, Nat.sub_sub]
    · intro room limit
      simpa using fit room limit

theorem refuses_keeps (base : Store) :
    Sink.Refuses base.Keeps base.Fits base.Cut base.whenFull where
  idle held := held.within
  write {store taken bytes} held unfit := by
    simp only [Fits, Classical.not_forall, Nat.not_le] at unfit
    obtain ⟨room, limit, large⟩ := unfit
    have within : taken.length ≤ room := held.within room limit
    have left : store.room = some (room - taken.length) := by
      rw [held.room, Option.mem_def.mp limit, Option.map_some]
    rw [← held.whenFull]
    refine ⟨_, write_cut left (by omega), room, limit, ?_⟩
    rw [List.take_append, List.take_of_length_le within, ← List.append_assoc, ← held.content]
    exact Tape.content_push _ _

end Store

namespace Run

def report (run : Run Store) : Report :=
  ⟨run.sink.content, run.rows.toList, run.diagnostics.toList⟩

/- No write has stopped the run, and none ever will. -/
structure Unhindered (run : Run Store) : Prop where
  running : run.fault = none
  roomy : run.sink.room = none

theorem carries_start {run : Run Store} (running : run.fault = none) :
    run.Carries run.sink.Keeps ⟨[], run.rows.toList, run.diagnostics.toList⟩ :=
  ⟨running, run.sink.keeps_self, rfl, rfl⟩

theorem assembleSource_unhindered {run : Run Store} (free : run.Unhindered) (source : Source) :
    (run.assembleSource source).Unhindered ∧
      (run.assembleSource source).report =
        run.report ++ Report.concat (source.outcomes.map Outcome.report) := by
  have any : ∀ taken bytes, run.sink.Fits taken bytes := by
    intro taken bytes room limit
    rw [free.roomy] at limit
    contradiction
  have carries := assembleSource_carries run.sink.takes_keeps (carries_start free.running)
    (allFit_any any _ source.outcomes)
  constructor
  · refine ⟨carries.running, ?_⟩
    rw [carries.sink.room, free.roomy, Option.map_none]
  · ext1
    · exact carries.sink.content
    · exact carries.rows
    · exact carries.diagnostics

end Run

namespace Source

/-- A source assembled on its own into a store without a limit. -/
def assembled (source : Source) (verbose : Bool) : Run Store :=
  Run.assembleSource { verbose := verbose, sink := .unlimited } source

theorem assembled_fault (source : Source) (verbose : Bool) : (source.assembled verbose).fault = none :=
  (Run.assembleSource_unhindered ⟨rfl, rfl⟩ source).1.running

theorem assembled_report (source : Source) (verbose : Bool) :
    (source.assembled verbose).report = Report.concat (source.outcomes.map Outcome.report) :=
  (Run.assembleSource_unhindered ⟨rfl, rfl⟩ source).2

theorem content_assembled (source : Source) (verbose : Bool) :
    (source.assembled verbose).sink.content = source.outcomes.flatMap Outcome.program := by
  have report := source.assembled_report verbose
  rw [Outcome.concat_reports] at report
  exact congrArg Report.program report

theorem rows_assembled (source : Source) (verbose : Bool) :
    (source.assembled verbose).rows.toList = source.outcomes.filterMap Outcome.row? := by
  have report := source.assembled_report verbose
  rw [Outcome.concat_reports] at report
  exact congrArg Report.rows report

theorem diagnostics_assembled (source : Source) (verbose : Bool) :
    (source.assembled verbose).diagnostics.toList = source.outcomes.filterMap Outcome.diagnostic? := by
  have report := source.assembled_report verbose
  rw [Outcome.concat_reports] at report
  exact congrArg Report.diagnostics report

end Source

end WhitespaceAsm
