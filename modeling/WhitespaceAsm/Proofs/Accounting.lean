import WhitespaceAsm.Proofs.Lines
import WhitespaceAsm.Proofs.Outcome

/-! Every line of a source is accounted for once: it is skipped, translated or refused, and adds to the
program, the listing and the diagnostics as it was. Numbers only grow from line to line, and a
diagnostic that marks a place marks the command word of its line. -/
namespace WhitespaceAsm

namespace Command

theorem lint?_pushChar {command : Command} (name : command.mnemonic = "pushchar") :
    command.lint? =
      if 1 < command.parameter.length then some (.extraCharacters command.parameter) else none := by
  have found : Instruction.ofMnemonic? "pushchar" = some (.pseudo .pushChar) := by decide
  simp [lint?, name, found, Pseudo.lint?, Pseudo.isLinted]

theorem lint?_other {command : Command} (name : command.mnemonic ≠ "pushchar") :
    command.lint? = none := by
  unfold lint?
  split
  · rename_i shorthand found
    have same : (Instruction.pseudo shorthand).mnemonic = command.mnemonic := by
      simpa using List.find?_some found
    have quiet : shorthand.isLinted = false := by
      cases shorthand with
      | pushChar => exact absurd same.symm name
      | _ => rfl
    simp [Pseudo.lint?, quiet]
  · rfl

end Command

namespace Accounting

def Skipped (line : Bytes) (share : Report) : Prop :=
  ∃ text, Text.ofBytes? line = some text ∧ Statement.plainWords text.toList = [] ∧ share = .empty

/-- A line whose command is emitted. It adds its tokens, one row, and a warning where only the first of
several characters is pushed. -/
def Translated (number : Nat) (line : Bytes) (share : Report) : Prop :=
  ∃ text command program, Text.ofBytes? line = some text ∧
    Statement.plainCommand? text = some command ∧ command.program = .ok program ∧
    share.program = Text.bytes program ∧ share.rows = [⟨number, Text.trim text, program⟩] ∧
    if command.mnemonic = "pushchar" ∧ 1 < command.parameter.length then
      ∃ warning, share.diagnostics = [warning] ∧ warning.severity = .warning ∧
        warning.line = some number
    else share.diagnostics = []

def Refused (number : Nat) (line : Bytes) (share : Report) : Prop :=
  (Text.ofBytes? line = none ∨
    ∃ text command cause, Text.ofBytes? line = some text ∧
      Statement.plainCommand? text = some command ∧ command.program = .error cause) ∧
  ∃ error, share = ⟨[], [], [error]⟩ ∧ error.severity = .error ∧ error.line = some number

def ExactlyOne (a b c : Prop) : Prop := (a ∧ ¬ b ∧ ¬ c) ∨ (¬ a ∧ b ∧ ¬ c) ∨ (¬ a ∧ ¬ b ∧ c)

theorem exactlyOne_ofLine (file : String) (number : Nat) (line : Bytes) :
    let share := (Outcome.ofLine file number (.ok line)).report
    ExactlyOne (Skipped line share) (Translated number line share) (Refused number line share) := by
  intro share
  cases read : Text.ofBytes? line with
  | none =>
    refine .inr (.inr ⟨?_, ?_, .inl read, ?_⟩)
    · simp [Skipped, read]
    · simp [Translated, read]
    · exact ⟨_, congrArg Outcome.report (Outcome.ofLine_unread file number read), rfl, rfl⟩
  | some text =>
    cases spelled : Statement.plainCommand? text with
    | none =>
      refine .inl ⟨⟨text, read, Statement.plainCommand?_eq_none_iff.mp spelled, ?_⟩, ?_, ?_⟩
      · exact congrArg Outcome.report (Outcome.ofLine_blank file number read spelled)
      · simp [Translated, read, spelled]
      · simp [Refused, read, spelled]
    | some command =>
      have worded : Statement.plainWords text.toList ≠ [] := by
        intro wordless
        rw [Statement.plainCommand?_eq_none_iff.mpr wordless] at spelled
        contradiction
      have kept : ¬ Skipped line share := by simp [Skipped, read, worded]
      cases emitted : command.program with
      | ok program =>
        obtain ⟨span, _, accepted⟩ := Outcome.ofLine_accepted file number read spelled emitted
        have same : share = _ := congrArg Outcome.report accepted
        refine .inr (.inl ⟨kept, ⟨text, command, program, read, spelled, emitted, ?_⟩, ?_⟩)
        · rw [same]
          refine ⟨rfl, rfl, ?_⟩
          by_cases name : command.mnemonic = "pushchar"
          · by_cases several : 1 < command.parameter.length
            · rw [if_pos ⟨name, several⟩, Command.lint?_pushChar name, if_pos several]
              exact ⟨_, rfl, rfl, rfl⟩
            · rw [if_neg fun both => several both.2, Command.lint?_pushChar name, if_neg several]
              rfl
          · rw [if_neg fun both => name both.1, Command.lint?_other name]
            rfl
        · simp [Refused, read, spelled, emitted]
      | error cause =>
        obtain ⟨span, _, rejected⟩ := Outcome.ofLine_rejected file number read spelled emitted
        refine .inr (.inr ⟨kept, ?_, .inr ⟨text, command, cause, read, spelled, emitted⟩, ?_⟩)
        · simp [Translated, read, spelled, emitted]
        · exact ⟨_, congrArg Outcome.report rejected, rfl, rfl⟩

end Accounting

namespace Outcome

theorem cut_diagnostic {file : String} {number : Nat} {line : Bytes} {diagnostic : Diagnostic}
    (told : (ofLine file number (.ok line)).diagnostic? = some diagnostic) {span : Span}
    (marked : diagnostic.span = some span) :
    ∃ text command, Text.ofBytes? line = some text ∧ Statement.plainCommand? text = some command ∧
      span.cut line = Text.bytes command.mnemonic := by
  cases read : Text.ofBytes? line with
  | none =>
    rw [ofLine_unread file number read] at told
    cases told
    contradiction
  | some text =>
    cases spelled : Statement.plainCommand? text with
    | none =>
      rw [ofLine_blank file number read spelled] at told
      contradiction
    | some command =>
      refine ⟨text, command, rfl, spelled, ?_⟩
      cases emitted : command.program with
      | ok program =>
        obtain ⟨place, cut, accepted⟩ := ofLine_accepted file number read spelled emitted
        rw [accepted] at told
        obtain ⟨warning, _, rfl⟩ := Option.map_eq_some_iff.mp told
        cases marked
        exact cut
      | error cause =>
        obtain ⟨place, cut, rejected⟩ := ofLine_rejected file number read spelled emitted
        rw [rejected] at told
        cases told
        cases marked
        exact cut

end Outcome

namespace Source

theorem zipIdx_increasing {A : Type} (items : List A) (start : Nat) :
    (items.zipIdx start).Pairwise fun a b => a.2 < b.2 := by
  induction items generalizing start with
  | nil => exact .nil
  | cons item items ih =>
    refine List.pairwise_cons.mpr ⟨?_, ih (start + 1)⟩
    intro other member
    exact List.le_snd_of_mem_zipIdx member

theorem rows_increasing (source : Source) :
    (source.outcomes.filterMap Outcome.row?).Pairwise fun a b => a.number < b.number := by
  rw [outcomes, List.filterMap_map]
  refine (zipIdx_increasing _ 1).filterMap _ ?_
  intro a b before row listed row' listed'
  rw [(Outcome.ofLine_numbered source.name a.2 a.1).1 row listed,
    (Outcome.ofLine_numbered source.name b.2 b.1).1 row' listed']
  exact before

theorem diagnostics_increasing (source : Source) :
    (source.outcomes.filterMap Outcome.diagnostic?).Pairwise fun a b =>
      ∃ m n, a.line = some m ∧ b.line = some n ∧ m < n := by
  rw [outcomes, List.filterMap_map]
  refine (zipIdx_increasing _ 1).filterMap _ ?_
  intro a b before first told second told'
  exact ⟨a.2, b.2, (Outcome.ofLine_numbered source.name a.2 a.1).2 first told,
    (Outcome.ofLine_numbered source.name b.2 b.1).2 second told', before⟩

end Source

/-- Every line is accounted for exactly once. The shares of the lines make up all that is written,
listed and diagnosed, in the order of the lines. -/
theorem every_line_accounted (name : String) (content : Bytes) (verbose : Bool) :
    let source : Source := ⟨name, [.piece content]⟩
    let run := source.assembled verbose
    ∃ (lines : List Bytes) (shares : List Report),
      Delivery.lines source.deliveries = lines.map .ok ∧ shares.length = lines.length ∧
      run.fault = none ∧ run.report = Report.concat shares ∧
      (∀ i line share, lines[i]? = some line → shares[i]? = some share →
        Accounting.ExactlyOne (Accounting.Skipped line share)
          (Accounting.Translated (i + 1) line share) (Accounting.Refused (i + 1) line share)) ∧
      (run.rows.toList.Pairwise fun a b => a.number < b.number) ∧
      (run.diagnostics.toList.Pairwise fun a b => ∃ m n, a.line = some m ∧ b.line = some n ∧ m < n) ∧
      ∀ diagnostic ∈ run.diagnostics.toList, ∀ span, diagnostic.span = some span →
        ∃ i line text command, diagnostic.line = some (i + 1) ∧ lines[i]? = some line ∧
          Text.ofBytes? line = some text ∧ Statement.plainCommand? text = some command ∧
          span.cut line = Text.bytes command.mnemonic := by
  intro source run
  obtain ⟨lines, read⟩ := Delivery.lines_piece content
  have outcomes : source.outcomes =
      (lines.zipIdx 1).map fun (line, number) => Outcome.ofLine name number (.ok line) := by
    rw [Source.outcomes, read, List.zipIdx_map, List.map_map]
    rfl
  refine ⟨lines, source.outcomes.map Outcome.report, read, ?_, source.assembled_fault verbose,
    source.assembled_report verbose, ?_, ?_, ?_, ?_⟩
  · simp [outcomes]
  · intro i line share at_line at_share
    rw [outcomes, List.getElem?_map, List.getElem?_map, List.getElem?_zipIdx, at_line] at at_share
    cases at_share
    rw [Nat.add_comm i 1]
    exact Accounting.exactlyOne_ofLine name (1 + i) line
  · exact source.rows_assembled verbose ▸ source.rows_increasing
  · exact source.diagnostics_assembled verbose ▸ source.diagnostics_increasing
  · intro diagnostic member span marked
    rw [source.diagnostics_assembled verbose, outcomes, List.filterMap_map] at member
    obtain ⟨⟨line, number⟩, place, told⟩ := List.mem_filterMap.mp member
    obtain ⟨positive, at_line⟩ := List.mk_mem_zipIdx_iff_le_and_getElem?_sub.mp place
    obtain ⟨text, command, decoded, spelled, cut⟩ := Outcome.cut_diagnostic told marked
    have numbered := (Outcome.ofLine_numbered name number (.ok line)).2 diagnostic told
    rw [← Nat.sub_add_cancel positive] at numbered
    exact ⟨number - 1, line, text, command, numbered, at_line, decoded, spelled, cut⟩

end WhitespaceAsm
