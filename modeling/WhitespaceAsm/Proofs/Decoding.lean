import Mathlib.Logic.ExistsUnique
import WhitespaceAsm.Proofs.Emission
import WhitespaceAsm.Proofs.Sinks

/-! Assembled programs can be read back. Whatever the lines of a source are, each of them adds whole
units or nothing, so the program falls into units, and it does so in one way only. -/
namespace WhitespaceAsm

namespace Token

theorem byte_injective : Function.Injective byte := by
  intro a b same
  have read := ofByte?_byte a
  rw [same, ofByte?_byte] at read
  exact (Option.some.inj read).symm

theorem bytes_prefix_iff {a b : List Token} : bytes a <+: bytes b ↔ a <+: b :=
  List.prefix_map_iff_of_injective byte_injective

end Token

namespace CodeUnit

theorem program_flatMap {A : Type} (units : A → List CodeUnit) (items : List A) :
    program (items.flatMap units) = items.flatMap fun item => program (units item) := by
  induction items with
  | nil => rfl
  | cons item items ih => rw [List.flatMap_cons, program_append, ih, List.flatMap_cons]

theorem existsUnique_code (unit : CodeUnit) (later : List CodeUnit) :
    ∃! opcode : Opcode, Token.bytes opcode.code <+: program (unit :: later) := by
  have starts : unit.opcode.code <+: allTokens (unit :: later) := code_starts unit (allTokens later)
  refine ⟨unit.opcode, Token.bytes_prefix_iff.mpr starts, ?_⟩
  intro other also
  exact Opcode.eq_of_codes_start (Token.bytes_prefix_iff.mp also) starts

end CodeUnit

namespace Outcome

def units (outcome : Outcome) : List CodeUnit := (CodeUnit.decode? outcome.program).getD []

theorem program_units (file : String) (number : Nat) (line : Except Fault Bytes) :
    CodeUnit.program (ofLine file number line).units = (ofLine file number line).program := by
  have whole : ∃ units, (ofLine file number line).program = CodeUnit.program units := by
    rcases ofLine_cases file line with blank | ⟨_, _, rejected⟩ | ⟨_, _, _, _, emitted, accepted⟩
    · exact ⟨[], congrArg program (blank number)⟩
    · exact ⟨[], congrArg program (rejected number)⟩
    · obtain ⟨units, rfl⟩ := Command.program_units emitted
      exact ⟨units, (congrArg program (accepted number)).trans (CodeUnit.bytes_text units)⟩
  obtain ⟨units, written⟩ := whole
  rw [Outcome.units, CodeUnit.decode?_eq_some_iff.mpr written, written]
  rfl

end Outcome

namespace Source

theorem program_units (source : Source) {outcome : Outcome} (member : outcome ∈ source.outcomes) :
    CodeUnit.program outcome.units = outcome.program := by
  obtain ⟨⟨line, number⟩, _, rfl⟩ := List.mem_map.mp member
  exact Outcome.program_units source.name number line

theorem content_units (source : Source) (verbose : Bool) :
    (source.assembled verbose).sink.content =
      CodeUnit.program (source.outcomes.flatMap Outcome.units) := by
  rw [content_assembled, CodeUnit.program_flatMap, List.flatMap_def, List.flatMap_def]
  congr 1
  apply List.map_congr_left
  intro outcome member
  exact (source.program_units member).symm

end Source

/-- The program of any source splits into units in exactly one way. Each line adds a block of whole
units of its own, and from any place where a unit starts exactly one code can be read. -/
theorem program_splits_uniquely (source : Source) (verbose : Bool) :
    let program := (source.assembled verbose).sink.content
    let units := source.outcomes.flatMap Outcome.units
    program = source.outcomes.flatMap Outcome.program ∧
    (∀ outcome ∈ source.outcomes, outcome.program = CodeUnit.program outcome.units) ∧
    CodeUnit.decode? program = some units ∧
    (∀ others, CodeUnit.program others = program → others = units) ∧
    (∀ before unit after, units = before ++ unit :: after →
      ∃! opcode : Opcode,
        Token.bytes opcode.code <+: program.drop (CodeUnit.program before).length) ∧
    ∀ (other : Source) (otherVerbose : Bool), (other.assembled otherVerbose).sink.content = program →
      (other.outcomes.flatMap Outcome.units).map CodeUnit.parts = units.map CodeUnit.parts := by
  intro program units
  have split : program = CodeUnit.program units := source.content_units verbose
  refine ⟨source.content_assembled verbose, ?_, CodeUnit.decode?_eq_some_iff.mpr split, ?_, ?_, ?_⟩
  · intro outcome member
    exact (source.program_units member).symm
  · intro others same
    exact CodeUnit.program_injective (same.trans split)
  · intro before unit after cut
    rw [split, cut, CodeUnit.program_append, List.drop_left]
    exact CodeUnit.existsUnique_code unit after
  · intro other otherVerbose same
    rw [other.content_units otherVerbose, split] at same
    rw [CodeUnit.program_injective same]

end WhitespaceAsm
