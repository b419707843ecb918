import WhitespaceAsm.Proofs.Sinks
import WhitespaceAsm.Proofs.Words

/-! The outcome of a line that was read, from its words alone. There are four kinds of lines: those that
are no text, those without words, and those whose words spell a command that is emitted or is not. -/
namespace WhitespaceAsm

namespace Statement

theorem plainCommand?_eq_none_iff {line : String} :
    plainCommand? line = none ↔ plainWords line.toList = [] := by
  unfold plainCommand?
  cases plainWords line.toList with
  | nil => simp
  | cons first rest => simp

end Statement

namespace Outcome

variable (file : String) (number : Nat) {content : Bytes} {text : String} {command : Command}

theorem ofLine_unread (unread : Text.ofBytes? content = none) :
    ofLine file number (.ok content) =
      .rejected ⟨.error, file, some number, none, Fault.invalidData.lineMessage⟩ := by
  simp only [ofLine, unread]

theorem ofLine_blank (read : Text.ofBytes? content = some text)
    (wordless : Statement.plainCommand? text = none) : ofLine file number (.ok content) = .blank := by
  have scanned := Statement.scan_eq text
  have same := Statement.scan_command scanned
  rw [wordless, Option.map_eq_none_iff] at same
  rw [same] at scanned
  simp only [ofLine, read, ofText, scanned]

/- A diagnostic marks the mnemonic, the bytes of the line being those of its text. -/
theorem cut_of_scan (read : Text.ofBytes? content = some text) {statement : Statement}
    (scanned : Statement.scan text = .ok (some statement)) :
    statement.span.cut content = Text.bytes statement.mnemonic := by
  rw [← Text.ofBytes?_eq_some_iff.mp read]
  exact Statement.cut_span scanned

theorem ofLine_accepted (read : Text.ofBytes? content = some text)
    (spelled : Statement.plainCommand? text = some command) {program : String}
    (emitted : command.program = .ok program) :
    ∃ span : Span, span.cut content = Text.bytes command.mnemonic ∧
      ofLine file number (.ok content) =
        .accepted command.mnemonic ⟨number, Text.trim text, program⟩
          (command.lint?.map fun warning =>
            ⟨.warning, file, some number, some span, warning.message⟩) := by
  obtain ⟨statement, scanned, rfl⟩ := Statement.scan_of_command spelled
  refine ⟨statement.span, cut_of_scan read scanned, ?_⟩
  simp only [ofLine, read, ofText, scanned, ofStatement, emitted]

theorem ofLine_rejected (read : Text.ofBytes? content = some text)
    (spelled : Statement.plainCommand? text = some command) {cause : CommandError}
    (failed : command.program = .error cause) :
    ∃ span : Span, span.cut content = Text.bytes command.mnemonic ∧
      ofLine file number (.ok content) =
        .rejected ⟨.error, file, some number, some span, cause.message⟩ := by
  obtain ⟨statement, scanned, rfl⟩ := Statement.scan_of_command spelled
  refine ⟨statement.span, cut_of_scan read scanned, ?_⟩
  simp only [ofLine, read, ofText, scanned, ofStatement, failed]

/-- The row of a line that is translated: it is a text, it has words, and they spell a command that is
emitted. -/
def translation? (number : Nat) : Except Fault Bytes → Option Row
  | .error _ => none
  | .ok content => do
    let text ← Text.ofBytes? content
    let command ← Statement.plainCommand? text
    let program ← command.program.toOption
    return ⟨number, Text.trim text, program⟩

theorem translation?_cases {line : Except Fault Bytes} {row : Row}
    (found : translation? number line = some row) :
    ∃ content text command program, line = .ok content ∧ Text.ofBytes? content = some text ∧
      Statement.plainCommand? text = some command ∧ command.program = .ok program ∧
      row = ⟨number, Text.trim text, program⟩ := by
  cases line with
  | error fault => contradiction
  | ok content =>
    simp only [translation?, Option.bind_eq_bind, Option.bind_eq_some_iff] at found
    obtain ⟨text, read, command, spelled, program, emitted, same⟩ := found
    refine ⟨content, text, command, program, rfl, read, spelled, ?_, (Option.some.inj same).symm⟩
    cases ending : command.program with
    | ok _ =>
      rw [ending] at emitted
      exact congrArg Except.ok (Option.some.inj emitted)
    | error cause =>
      rw [ending] at emitted
      contradiction

theorem row?_ofLine (line : Except Fault Bytes) :
    (ofLine file number line).row? = translation? number line := by
  cases line with
  | error fault => rfl
  | ok content =>
    cases read : Text.ofBytes? content with
    | none =>
      rw [ofLine_unread file number read]
      simp [translation?, row?, read]
    | some text =>
      cases spelled : Statement.plainCommand? text with
      | none =>
        rw [ofLine_blank file number read spelled]
        simp [translation?, row?, read, spelled]
      | some command =>
        cases emitted : command.program with
        | ok program =>
          obtain ⟨_, _, accepted⟩ := ofLine_accepted file number read spelled emitted
          rw [accepted]
          simp [translation?, row?, read, spelled, emitted, Except.toOption]
        | error cause =>
          obtain ⟨_, _, rejected⟩ := ofLine_rejected file number read spelled emitted
          rw [rejected]
          simp [translation?, row?, read, spelled, emitted, Except.toOption]

theorem flatMap_program (outcomes : List Outcome) :
    outcomes.flatMap program = (outcomes.filterMap row?).flatMap fun row => Text.bytes row.program := by
  induction outcomes with
  | nil => rfl
  | cons outcome outcomes ih =>
    rw [List.flatMap_cons, ih]
    cases outcome <;> rfl

theorem ofLine_numbered (line : Except Fault Bytes) :
    (∀ row ∈ (ofLine file number line).row?, row.number = number) ∧
      ∀ diagnostic ∈ (ofLine file number line).diagnostic?, diagnostic.line = some number := by
  rcases ofLine_cases file line with blank | ⟨_, _, rejected⟩ | ⟨command, _, _, _, _, accepted⟩
  · simp [blank, row?, diagnostic?]
  · simp [rejected, row?, diagnostic?]
  · cases quiet : command.lint? <;> simp [accepted, row?, diagnostic?, quiet]

end Outcome

namespace Source

def translations (source : Source) : List Row :=
  ((Delivery.lines source.deliveries).zipIdx 1).filterMap fun (line, number) =>
    Outcome.translation? number line

theorem rows_eq_translations (source : Source) (verbose : Bool) :
    (source.assembled verbose).rows.toList = source.translations := by
  rw [rows_assembled, outcomes, List.filterMap_map, translations]
  congr 1
  funext numbered
  exact Outcome.row?_ofLine source.name numbered.2 numbered.1

theorem content_eq_translations (source : Source) (verbose : Bool) :
    (source.assembled verbose).sink.content =
      source.translations.flatMap fun row => Text.bytes row.program := by
  rw [← source.rows_eq_translations verbose, rows_assembled, content_assembled,
    Outcome.flatMap_program]

end Source

end WhitespaceAsm
