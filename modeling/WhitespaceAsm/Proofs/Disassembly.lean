import WhitespaceAsm.Proofs.Decoding
import WhitespaceAsm.Proofs.Lines
import WhitespaceAsm.Proofs.Outcome
import WhitespaceAsm.Proofs.Spelling

/-! Disassembly: every sequence of units can be written as a source, one line a unit, which assembles
to these units again. A parameter of any length is spelled by a `0b` literal, so nothing but units can
be assembled and all units can. -/
namespace WhitespaceAsm

namespace Opcode

theorem plain_mnemonic (opcode : Opcode) : ∀ c ∈ opcode.mnemonic.toList, isPlain c = true := by
  have plain : opcode.mnemonic.toList.all isPlain = true := by
    cases opcode <;> decide
  exact List.all_eq_true.mp plain

theorem mnemonic_ne_nil (opcode : Opcode) : opcode.mnemonic.toList ≠ [] := by
  cases opcode <;> decide

end Opcode

namespace CodeUnit

def literal (unit : CodeUnit) : List Char := '0' :: 'b' :: digitChars unit.digits

/-- The line of a unit: its mnemonic, and a literal if there is a parameter. -/
def line (unit : CodeUnit) : List Char :=
  if unit.opcode.takesParameter then unit.opcode.mnemonic.toList ++ ' ' :: unit.literal
  else unit.opcode.mnemonic.toList

def disassembly (units : List CodeUnit) : Bytes :=
  units.flatMap fun unit => Text.encoded unit.line ++ [10]

theorem literal_ne_nil (unit : CodeUnit) : unit.literal ≠ [] := List.cons_ne_nil _ _

theorem plain_literal (unit : CodeUnit) : ∀ c ∈ unit.literal, isPlain c = true := by
  intro c member
  have plain : ['0', '1', 'b'].all isPlain = true := by decide
  exact List.all_eq_true.mp plain c (mem_literal member)

theorem mem_line {unit : CodeUnit} {c : Char} (member : c ∈ unit.line) :
    isPlain c = true ∨ c = ' ' := by
  unfold line at member
  split at member
  · rcases List.mem_append.mp member with member | member
    · exact .inl (unit.opcode.plain_mnemonic c member)
    · rcases List.mem_cons.mp member with rfl | member
      · exact .inr rfl
      · exact .inl (unit.plain_literal c member)
  · exact .inl (unit.opcode.plain_mnemonic c member)

/- A line feed or a carriage return in the bytes would be one in the line. -/
theorem not_mem_line_bytes (unit : CodeUnit) {byte : UInt8} (ending : byte = 10 ∨ byte = 13) :
    byte ∉ Text.encoded unit.line := by
  intro member
  rcases ending with rfl | rfl
  all_goals
    have found := mem_line (Text.mem_of_mem_encoded (by decide) member)
    revert found
    decide

theorem plainCommand?_line (unit : CodeUnit) :
    ∃ parameter, Statement.plainCommand? (String.ofList unit.line) =
        some ⟨unit.opcode.mnemonic, parameter⟩ ∧
      (unit.opcode.takesParameter = true →
        Parameter.encode parameter = .ok (Parameter.run unit.digits)) := by
  unfold Statement.plainCommand? line
  by_cases takes : unit.opcode.takesParameter = true
  · have words := Statement.plainWords_pair unit.opcode.mnemonic_ne_nil unit.opcode.plain_mnemonic
      unit.literal_ne_nil unit.plain_literal
    rw [if_pos takes, String.toList_ofList, words]
    refine ⟨String.ofList unit.literal, by simp, ?_⟩
    intro _
    exact Parameter.encode_literal (unit.digits_iff.mpr takes)
  · have words := Statement.plainWords_word unit.opcode.mnemonic_ne_nil unit.opcode.plain_mnemonic
    rw [if_neg takes, String.toList_ofList, words]
    exact ⟨"", by simp, fun takes' => absurd takes' takes⟩

theorem program_command (unit : CodeUnit) {parameter : String}
    (spelled : unit.opcode.takesParameter = true →
      Parameter.encode parameter = .ok (Parameter.run unit.digits)) :
    (Command.mk unit.opcode.mnemonic parameter).program = .ok (text [unit]) := by
  have emitted : (Command.mk unit.opcode.mnemonic parameter).emit =
      Emission.append (text [unit]) := by
    rw [Command.emit, unit.opcode.ofMnemonic?_mnemonic]
    exact Opcode.emit_unit unit parameter spelled
  rw [Command.program, emitted, Emission.onto_append, String.empty_append]

theorem ofLine_line (unit : CodeUnit) (file : String) (number : Nat) :
    ∃ mnemonic row, row.program = text [unit] ∧
      Outcome.ofLine file number (.ok (Text.encoded unit.line)) = .accepted mnemonic row none := by
  obtain ⟨parameter, command, spelled⟩ := unit.plainCommand?_line
  have read : Text.ofBytes? (Text.encoded unit.line) = some (String.ofList unit.line) :=
    Text.ofBytes?_eq_some_iff.mpr (Text.bytes_ofList _)
  have quiet : (Command.mk unit.opcode.mnemonic parameter).lint? = none := by
    rw [Command.lint?, unit.opcode.ofMnemonic?_mnemonic]
  obtain ⟨_, _, accepted⟩ :=
    Outcome.ofLine_accepted file number read command (unit.program_command spelled)
  rw [quiet] at accepted
  exact ⟨_, _, rfl, accepted⟩

theorem outcomes_lines (units : List CodeUnit) (file : String) (number : Nat) :
    let lines : List (Except Fault Bytes) := units.map fun unit => .ok (Text.encoded unit.line)
    let outcomes := (lines.zipIdx number).map fun (line, number) => Outcome.ofLine file number line
    outcomes.flatMap Outcome.program = program units ∧ outcomes.filterMap Outcome.diagnostic? = [] := by
  induction units generalizing number with
  | nil => exact ⟨rfl, rfl⟩
  | cons unit units ih =>
    obtain ⟨written, quiet⟩ := ih (number + 1)
    obtain ⟨mnemonic, row, emitted, accepted⟩ := unit.ofLine_line file number
    simp only [List.map_cons, List.zipIdx_cons, accepted, List.flatMap_cons, written]
    refine ⟨?_, quiet⟩
    rw [Outcome.program, emitted, bytes_text]
    exact (program_append [unit] units).symm

theorem lines_disassembly (units : List CodeUnit) :
    Delivery.lines [.piece (disassembly units)] =
      units.map fun unit => .ok (Text.encoded unit.line) := by
  apply Delivery.lines_flatMap
  · intro unit _
    exact unit.not_mem_line_bytes (.inl rfl)
  · intro unit _ last
    exact unit.not_mem_line_bytes (.inr rfl) (List.mem_of_getLast? last)

end CodeUnit

/-- Assembling undoes disassembling, without a word of complaint. Together with the fact that only
units are ever assembled, it says which programs there are. -/
theorem assemble_disassembly (name : String) (verbose : Bool) :
    (∀ units : List CodeUnit,
      let run := (Source.mk name [.piece (CodeUnit.disassembly units)]).assembled verbose
      run.sink.content = CodeUnit.program units ∧ run.diagnostics = #[] ∧ run.fault = none) ∧
    ∀ program : Bytes,
      (∃ content, ((Source.mk name [.piece content]).assembled verbose).sink.content = program) ↔
        ∃ units : List CodeUnit, CodeUnit.program units = program := by
  have back : ∀ units : List CodeUnit,
      let run := (Source.mk name [.piece (CodeUnit.disassembly units)]).assembled verbose
      run.sink.content = CodeUnit.program units ∧ run.diagnostics = #[] ∧ run.fault = none := by
    intro units run
    obtain ⟨written, quiet⟩ := CodeUnit.outcomes_lines units name 1
    rw [← CodeUnit.lines_disassembly] at written quiet
    refine ⟨?_, ?_, Source.assembled_fault _ verbose⟩
    · exact (Source.content_assembled _ verbose).trans written
    · exact Array.toList_eq_nil_iff.mp ((Source.diagnostics_assembled _ verbose).trans quiet)
  refine ⟨back, ?_⟩
  intro program
  constructor
  · rintro ⟨content, rfl⟩
    exact ⟨_, (Source.content_units _ verbose).symm⟩
  · rintro ⟨units, rfl⟩
    exact ⟨CodeUnit.disassembly units, (back units).1⟩

end WhitespaceAsm
