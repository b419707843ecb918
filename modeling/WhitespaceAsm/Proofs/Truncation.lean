import WhitespaceAsm.Proofs.Sinks

/-! A store that is too small for the program. Lines are carried out as in a store without a limit
for as long as their bytes fit. The first line that does not fit is cut, its warning has been told
by then and its row is not listed, and nothing after it counts. -/
namespace WhitespaceAsm

namespace Outcome

theorem length_take_le (outcomes : List Outcome) (count : Nat) :
    ((outcomes.take count).flatMap program).length ≤ (outcomes.flatMap program).length := by
  have parts := congrArg (List.flatMap program) (List.take_append_drop count outcomes)
  rw [List.flatMap_append] at parts
  rw [← parts, List.length_append]
  omega

theorem accepted_of_program {outcome : Outcome} (some : 0 < outcome.program.length) :
    ∃ mnemonic row warning, outcome = .accepted mnemonic row warning := by
  cases outcome with
  | blank => simp [program] at some
  | rejected diagnostic => simp [program] at some
  | accepted mnemonic row warning => exact ⟨mnemonic, row, warning, rfl⟩

end Outcome

namespace Store

variable {store : Store} {room : Nat}

theorem fits_iff (limit : store.room = some room) {taken bytes : Bytes} :
    store.Fits taken bytes ↔ taken.length + bytes.length ≤ room := by
  simp [Fits, limit]

theorem length_of_fits (limit : store.room = some room) {outcomes : List Outcome}
    (fit : Run.AllFit store.Fits [] outcomes) :
    (outcomes.flatMap Outcome.program).length ≤ room := by
  have total := Run.length_of_allFit (fun _ _ => (fits_iff limit).mp) (by simp) fit
  simpa using total

end Store

namespace Run

variable {run : Run Store} {room : Nat}

/- A run that has ended, in the words of a limit: all of the program is kept, or as much as there is
room for. -/
theorem Ends.fits_or_cut {start : Store} {rows : List Row} {diagnostics : List Diagnostic}
    {outcomes : List Outcome} (limit : start.room = some room)
    (ended : Ends start.Keeps start.Fits start.Cut start.whenFull ⟨[], rows, diagnostics⟩ outcomes run) :
    ((outcomes.flatMap Outcome.program).length ≤ room ∧ run.fault = none ∧
      run.report = ⟨start.content ++ outcomes.flatMap Outcome.program,
        rows ++ outcomes.filterMap Outcome.row?,
        diagnostics ++ outcomes.filterMap Outcome.diagnostic?⟩) ∨
    ∃ before outcome after, outcomes = before ++ outcome :: after ∧
      (before.flatMap Outcome.program).length ≤ room ∧
      room < (before.flatMap Outcome.program).length + outcome.program.length ∧
      run.fault = some start.whenFull ∧
      run.report = ⟨start.content ++ (outcomes.flatMap Outcome.program).take room,
        rows ++ before.filterMap Outcome.row?,
        diagnostics ++ before.filterMap Outcome.diagnostic? ++ outcome.diagnostic?.toList⟩ := by
  cases ended with
  | carried fit carries =>
    rw [Outcome.concat_reports] at carries
    refine .inl ⟨Store.length_of_fits limit fit, carries.running, ?_⟩
    ext1
    · exact carries.sink.content
    · exact carries.rows
    · exact carries.diagnostics
  | cut before outcome after lines fit unfit stopped =>
    rw [Outcome.concat_reports] at stopped
    have within := Store.length_of_fits limit fit
    have beyond : room < (before.flatMap Outcome.program).length + outcome.program.length :=
      Nat.not_le.mp (mt (Store.fits_iff limit).mpr unfit)
    have kept : (outcomes.flatMap Outcome.program).take room =
        (before.flatMap Outcome.program ++ outcome.program).take room := by
      rw [lines, List.flatMap_append, List.flatMap_cons, ← List.append_assoc]
      apply List.take_append_of_le_length
      rw [List.length_append]
      exact Nat.le_of_lt beyond
    obtain ⟨_, same, content⟩ := stopped.sink
    cases Option.some.inj (limit.symm.trans same)
    refine .inr ⟨before, outcome, after, lines, within, beyond, stopped.stopped, ?_⟩
    ext1
    · rw [kept]
      exact content
    · exact stopped.rows.trans (List.append_nil _)
    · exact stopped.diagnostics

end Run

/-- A store with too little room keeps the start of the program, and the run fails exactly then. The
line that would go beyond it, the first one there is, leaves its warning behind but no row; the
lines before it leave what they would have left anyway, and those after it leave nothing. A store may
fail in any way but one: a write that is interrupted would be tried again. -/
theorem full_store_truncates (source : Source) (verbose : Bool) (kept : Tape) (rows : Array Row)
    (diagnostics : Array Diagnostic) (room : Nat) (whenFull : Fault) (final : whenFull ≠ .interrupted) :
    let start : Run Store :=
      { verbose := verbose, sink := ⟨kept, some room, whenFull⟩, rows := rows,
        diagnostics := diagnostics }
    let run := start.assembleSource source
    let whole := source.assembled verbose
    let program := whole.sink.content
    let written := fun count => ((source.outcomes.take count).flatMap Outcome.program).length
    run.sink.content = kept.content ++ program.take room ∧
    run.fault = (if room < program.length then some whenFull else none) ∧
    run.fault ≠ some .interrupted ∧
    (run.fault = none →
      run.rows.toList = rows.toList ++ whole.rows.toList ∧
      run.diagnostics.toList = diagnostics.toList ++ whole.diagnostics.toList) ∧
    (run.fault ≠ none → ∃ j mnemonic row warning,
      source.outcomes[j]? = some (.accepted mnemonic row warning) ∧
      (∀ i ≤ j, written i ≤ room) ∧ room < written (j + 1) ∧
      run.rows.toList = rows.toList ++ (source.outcomes.take j).filterMap Outcome.row? ∧
      run.diagnostics.toList = diagnostics.toList ++
        (source.outcomes.take j).filterMap Outcome.diagnostic? ++ warning.toList) := by
  intro start run whole program written
  have content : program = source.outcomes.flatMap Outcome.program := source.content_assembled verbose
  have ended := Run.assembleSource_ends start.sink.takes_keeps start.sink.refuses_keeps
    (Run.carries_start (show start.fault = none from rfl)) source
  rw [content, source.rows_assembled verbose, source.diagnostics_assembled verbose]
  rcases ended.fits_or_cut rfl with
    ⟨fits, finished, report⟩ | ⟨before, outcome, after, lines, within, beyond, stopped, report⟩
  · rw [List.take_of_length_le fits, if_neg (Nat.not_lt.mpr fits)]
    refine ⟨congrArg Report.program report, finished, ?_, ?_, fun failed => absurd finished failed⟩
    · intro same
      cases finished.symm.trans same
    · intro _
      exact ⟨congrArg Report.rows report, congrArg Report.diagnostics report⟩
  · obtain ⟨mnemonic, row, warning, rfl⟩ :=
      Outcome.accepted_of_program (show 0 < outcome.program.length by omega)
    have front : source.outcomes.take before.length = before := by rw [lines, List.take_left]
    have long : room < written (before.length + 1) := by
      simp only [written, lines, Outcome.take_line, List.flatMap_append, List.length_append,
        List.flatMap_singleton]
      exact beyond
    have large : room < (source.outcomes.flatMap Outcome.program).length :=
      Nat.lt_of_lt_of_le long (Outcome.length_take_le _ _)
    rw [if_pos large]
    refine ⟨congrArg Report.program report, stopped, ?_, ?_, ?_⟩
    · rw [stopped]
      exact fun same => final (Option.some.inj same)
    · intro finished
      rw [stopped] at finished
      contradiction
    · intro _
      refine ⟨before.length, mnemonic, row, warning, by simp [lines], ?_, long, ?_, ?_⟩
      · intro i earlier
        have shorter : source.outcomes.take i = before.take i := by
          rw [lines, List.take_append_of_le_length earlier]
        simp only [written, shorter]
        exact Nat.le_trans (Outcome.length_take_le before i) within
      · rw [front]
        exact congrArg Report.rows report
      · rw [front]
        exact congrArg Report.diagnostics report

/-- The first line has five bytes, so that the second one is cut inside. -/
theorem full_store_truncates_in_line :
    let source : Source := ⟨"a", [.piece (Text.bytes "push 1\nadd 2\nswap\n")]⟩
    let start : Run Store := { verbose := false, sink := ⟨.empty, some 6, .writeZero⟩ }
    let run := start.assembleSource source
    Fault.writeZero ≠ .interrupted ∧ run.fault = some .writeZero ∧
      run.sink.content = (source.assembled false).sink.content.take 6 := by
  intro source start run
  have final : Fault.writeZero ≠ .interrupted := by decide
  have large : 6 < (source.assembled false).sink.content.length := by decide +kernel
  have truncated := full_store_truncates source false .empty #[] #[] 6 .writeZero final
  exact ⟨final, truncated.2.1.trans (if_pos large), truncated.1⟩

end WhitespaceAsm
