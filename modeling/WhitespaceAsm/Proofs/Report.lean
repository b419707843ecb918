import WhitespaceAsm.Source

/-! Reports: what is written, listed and diagnosed. A line enters these three accounts by its outcome
alone, so reports of single lines are put together to those of many. -/
namespace WhitespaceAsm

@[ext] structure Report where
  program : Bytes
  rows : List Row
  diagnostics : List Diagnostic
  deriving DecidableEq, Repr

namespace Report

def empty : Report := ⟨[], [], []⟩

instance : Append Report :=
  ⟨fun a b => ⟨a.program ++ b.program, a.rows ++ b.rows, a.diagnostics ++ b.diagnostics⟩⟩

@[simp] theorem program_append (a b : Report) : (a ++ b).program = a.program ++ b.program := rfl

@[simp] theorem rows_append (a b : Report) : (a ++ b).rows = a.rows ++ b.rows := rfl

@[simp] theorem diagnostics_append (a b : Report) :
    (a ++ b).diagnostics = a.diagnostics ++ b.diagnostics := rfl

@[simp] theorem append_empty (a : Report) : a ++ empty = a := by
  ext1 <;> simp [empty]

@[simp] theorem empty_append (a : Report) : empty ++ a = a := rfl

theorem append_assoc (a b c : Report) : a ++ b ++ c = a ++ (b ++ c) := by
  ext1 <;> simp

def concat (reports : List Report) : Report := reports.foldr (· ++ ·) empty

@[simp] theorem concat_nil : concat [] = empty := rfl

@[simp] theorem concat_cons (report : Report) (reports : List Report) :
    concat (report :: reports) = report ++ concat reports := rfl

theorem concat_append (a b : List Report) : concat (a ++ b) = concat a ++ concat b := by
  induction a with
  | nil => rfl
  | cons report reports ih => simp [ih, append_assoc]

end Report

namespace Outcome

def program : Outcome → Bytes
  | accepted _ row _ => Text.bytes row.program
  | _ => []

def row? : Outcome → Option Row
  | accepted _ row _ => some row
  | _ => none

def diagnostic? : Outcome → Option Diagnostic
  | blank => none
  | accepted _ _ warning => warning
  | rejected diagnostic => some diagnostic

def report (outcome : Outcome) : Report :=
  ⟨outcome.program, outcome.row?.toList, outcome.diagnostic?.toList⟩

theorem concat_reports (outcomes : List Outcome) :
    Report.concat (outcomes.map report) =
      ⟨outcomes.flatMap program, outcomes.filterMap row?, outcomes.filterMap diagnostic?⟩ := by
  induction outcomes with
  | nil => rfl
  | cons outcome outcomes ih =>
    rw [List.map_cons, Report.concat_cons, ih]
    ext1
    · rfl
    · cases row : outcome.row? <;> simp [report, row]
    · cases diagnostic : outcome.diagnostic? <;> simp [report, diagnostic]

theorem take_line (before after : List Outcome) (outcome : Outcome) :
    (before ++ outcome :: after).take (before.length + 1) = before ++ [outcome] := by
  rw [List.take_length_add_append]
  rfl

/- All that a line can come to. Its number and its file enter the row and the diagnostic, and decide
nothing. -/
theorem ofLine_forms (line : Except Fault Bytes) :
    (∀ file number, ofLine file number line = .blank) ∨
    (∃ span message, ∀ file number,
      ofLine file number line = .rejected ⟨.error, file, some number, span, message⟩) ∨
    ∃ (command : Command) (text program : String) (span : Span), command.program = .ok program ∧
      ∀ file number, ofLine file number line =
        .accepted command.mnemonic ⟨number, Text.trim text, program⟩
          (command.lint?.map fun warning =>
            ⟨.warning, file, some number, some span, warning.message⟩) := by
  cases line with
  | error fault => exact .inr (.inl ⟨none, fault.lineMessage, fun _ _ => rfl⟩)
  | ok content =>
    cases read : Text.ofBytes? content with
    | none =>
      exact .inr (.inl ⟨none, Fault.invalidData.lineMessage, fun _ _ => by simp only [ofLine, read]⟩)
    | some text =>
      simp only [ofLine, read, ofText]
      cases Statement.scan text with
      | error cause => exact .inr (.inl ⟨some cause.span, cause.message, fun _ _ => rfl⟩)
      | ok found =>
        cases found with
        | none => exact .inl fun _ _ => rfl
        | some statement =>
          simp only [ofStatement]
          cases emitted : statement.program with
          | error cause => exact .inr (.inl ⟨some statement.span, cause.message, fun _ _ => rfl⟩)
          | ok program =>
            exact .inr (.inr
              ⟨statement.toCommand, text, program, statement.span, emitted, fun _ _ => rfl⟩)

theorem ofLine_cases (file : String) (line : Except Fault Bytes) :
    (∀ number, ofLine file number line = .blank) ∨
    (∃ span message, ∀ number,
      ofLine file number line = .rejected ⟨.error, file, some number, span, message⟩) ∨
    ∃ (command : Command) (text program : String) (span : Span), command.program = .ok program ∧
      ∀ number, ofLine file number line =
        .accepted command.mnemonic ⟨number, Text.trim text, program⟩
          (command.lint?.map fun warning =>
            ⟨.warning, file, some number, some span, warning.message⟩) := by
  rcases ofLine_forms line with blank | ⟨span, message, rejected⟩ | accepted
  · exact .inl (blank file)
  · exact .inr (.inl ⟨span, message, rejected file⟩)
  · obtain ⟨command, text, program, span, emitted, accepted⟩ := accepted
    exact .inr (.inr ⟨command, text, program, span, emitted, accepted file⟩)

end Outcome

end WhitespaceAsm
