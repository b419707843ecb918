import WhitespaceAsm.Command
import WhitespaceAsm.Proofs.CodeUnit
import WhitespaceAsm.Proofs.Spelling

/-! Commands are emitted in whole units. What holds of an emission is said through `onto`: how it ends
and the text it leaves behind. Emissions that append nothing but whole units are closed under doing
one after the other, and the primitive instructions are such emissions. -/
namespace WhitespaceAsm

namespace Parameter

theorem encodeLiteral_run {body : List Char} {tokens : List Token}
    (encoded : encodeLiteral body = .ok tokens) : ∃ digits, digits ≠ [] ∧ tokens = run digits := by
  obtain ⟨digits, filled, _, same⟩ := encodeLiteral_eq_ok_iff.mp encoded
  exact ⟨digits, filled, same⟩

theorem encodeNumber_run {radix : Radix} {digits text : List Char} {tokens : List Token}
    (encoded : encodeNumber radix digits text = .ok tokens) :
    ∃ digits, digits ≠ [] ∧ tokens = run digits := by
  unfold encodeNumber at encoded
  split at encoded
  · rename_i value _
    cases encoded
    exact ⟨signedDigits value, by simp [signedDigits], rfl⟩
  · contradiction
  · contradiction

theorem encode_run {text : String} {tokens : List Token} (encoded : encode text = .ok tokens) :
    ∃ digits, digits ≠ [] ∧ tokens = run digits := by
  unfold encode encodeTrimmed at encoded
  split at encoded
  · contradiction
  · exact encodeLiteral_run encoded
  · exact encodeNumber_run encoded
  · exact encodeNumber_run encoded

end Parameter

namespace Emission

@[simp] theorem onto_append (added text : String) :
    (append added).onto text = (.ok (), text ++ added) := rfl

@[simp] theorem onto_throw (cause : CommandError) (text : String) :
    (throw cause : Emission Unit).onto text = (.error cause, text) := rfl

@[simp] theorem onto_pure (text : String) : (pure () : Emission Unit).onto text = (.ok (), text) := rfl

theorem onto_seq_ok {first : Emission Unit} {text written : String}
    (done : first.onto text = (.ok (), written)) (next : Emission Unit) :
    (first >>= fun _ => next).onto text = next.onto written := by
  unfold onto at done ⊢
  simp only [ExceptT.run_bind, StateT.run_bind]
  rw [done]
  rfl

theorem onto_seq_error {first : Emission Unit} {text written : String} {cause : CommandError}
    (failed : first.onto text = (.error cause, written)) (next : Emission Unit) :
    (first >>= fun _ => next).onto text = (.error cause, written) := by
  unfold onto at failed ⊢
  simp only [ExceptT.run_bind, StateT.run_bind]
  rw [failed]
  rfl

theorem onto_whole_ok {emission : Emission Unit} {written : String}
    (done : emission.onto "" = (.ok (), written)) (text : String) :
    (whole emission).onto text = (.ok (), text ++ written) := by
  rw [whole, done]
  rfl

theorem onto_whole_error {emission : Emission Unit} {written : String} {cause : CommandError}
    (failed : emission.onto "" = (.error cause, written)) (text : String) :
    (whole emission).onto text = (.error cause, text) := by
  rw [whole, failed]
  rfl

/- However it ends, such an emission leaves the text with whole units added to it. -/
def InUnits (emission : Emission Unit) : Prop :=
  ∀ text, ∃ units, (emission.onto text).2 = text ++ CodeUnit.text units

theorem inUnits_throw (cause : CommandError) : InUnits (throw cause) := by
  intro text
  exact ⟨[], by simp⟩

theorem inUnits_pure : InUnits (pure ()) := by
  intro text
  exact ⟨[], by simp⟩

theorem inUnits_append (units : List CodeUnit) : InUnits (append (CodeUnit.text units)) := by
  intro text
  exact ⟨units, by simp⟩

theorem inUnits_seq {first next : Emission Unit} (one : InUnits first) (two : InUnits next) :
    InUnits (first >>= fun _ => next) := by
  intro text
  obtain ⟨units, written⟩ := one text
  cases ended : (first.onto text).1 with
  | ok =>
    have done : first.onto text = (.ok (), text ++ CodeUnit.text units) := Prod.ext ended written
    obtain ⟨more, added⟩ := two (text ++ CodeUnit.text units)
    exact ⟨units ++ more, by rw [onto_seq_ok done, added, CodeUnit.text_append, String.append_assoc]⟩
  | error cause =>
    have failed : first.onto text = (.error cause, text ++ CodeUnit.text units) :=
      Prod.ext ended written
    exact ⟨units, by rw [onto_seq_error failed]⟩

theorem inUnits_whole {emission : Emission Unit} (inside : InUnits emission) :
    InUnits (whole emission) := by
  intro text
  obtain ⟨units, written⟩ := inside ""
  rw [String.empty_append] at written
  cases ended : (emission.onto "").1 with
  | ok =>
    have done : emission.onto "" = (.ok (), CodeUnit.text units) := Prod.ext ended written
    exact ⟨units, by rw [onto_whole_ok done]⟩
  | error cause =>
    have failed : emission.onto "" = (.error cause, CodeUnit.text units) := Prod.ext ended written
    exact ⟨[], by simp [onto_whole_error failed]⟩

end Emission

namespace Opcode

theorem ofMnemonic?_mnemonic (opcode : Opcode) :
    Instruction.ofMnemonic? opcode.mnemonic = some (.primitive opcode) := by
  cases opcode <;> decide

theorem emit_encoded {opcode : Opcode} (takes : opcode.takesParameter = true) {parameter : String}
    {tokens : List Token} (encoded : Parameter.encode parameter = .ok tokens) :
    opcode.emit parameter = Emission.append (Token.text opcode.code ++ Token.text tokens) := by
  simp only [emit, Form.emit, form, if_pos takes, encoded]

theorem emit_bare {opcode : Opcode} (bare : ¬ opcode.takesParameter = true) (parameter : String) :
    opcode.emit parameter = Emission.append (Token.text opcode.code) :=
  if_neg bare

theorem emit_missing {opcode : Opcode} (takes : opcode.takesParameter = true) {parameter : String}
    (refused : Parameter.encode parameter = .error .missing) :
    opcode.emit parameter = throw (.missingParameter opcode.mnemonic) := by
  simp only [emit, Form.emit, form, if_pos takes, refused]

theorem emit_malformed {opcode : Opcode} (takes : opcode.takesParameter = true) {parameter : String}
    {flaw : Parameter.Flaw} (refused : Parameter.encode parameter = .error (.malformed flaw)) :
    opcode.emit parameter = throw (.malformedParameter opcode.mnemonic flaw) := by
  simp only [emit, Form.emit, form, if_pos takes, refused]

theorem emit_error {opcode : Opcode} (takes : opcode.takesParameter = true) {parameter : String}
    {error : Parameter.Error} (refused : Parameter.encode parameter = .error error) :
    ∃ cause, opcode.emit parameter = throw cause := by
  cases error with
  | missing => exact ⟨_, emit_missing takes refused⟩
  | malformed flaw => exact ⟨_, emit_malformed takes refused⟩

/- The text has to spell the unit's digits only where they are read. -/
theorem emit_unit (unit : CodeUnit) (parameter : String)
    (spelled : unit.opcode.takesParameter = true →
      Parameter.encode parameter = .ok (Parameter.run unit.digits)) :
    unit.opcode.emit parameter = Emission.append (CodeUnit.text [unit]) := by
  rw [CodeUnit.text_singleton, CodeUnit.parameter]
  by_cases takes : unit.opcode.takesParameter = true
  · rw [if_pos takes, emit_encoded takes (spelled takes)]
  · rw [if_neg takes, emit_bare takes]
    simp [Token.text]

theorem inUnits_emit (opcode : Opcode) (parameter : String) :
    Emission.InUnits (opcode.emit parameter) := by
  by_cases takes : opcode.takesParameter = true
  · cases encoded : Parameter.encode parameter with
    | ok tokens =>
      obtain ⟨digits, some, rfl⟩ := Parameter.encode_run encoded
      rw [emit_unit ⟨opcode, digits, by simp [takes, some]⟩ parameter fun _ => encoded]
      exact Emission.inUnits_append _
    | error error =>
      obtain ⟨cause, failed⟩ := emit_error takes encoded
      rw [failed]
      exact Emission.inUnits_throw cause
  · rw [emit_unit ⟨opcode, [], by simp [takes]⟩ parameter fun takes' => absurd takes' takes]
    exact Emission.inUnits_append _

end Opcode

namespace Pseudo

theorem ofMnemonic?_mnemonic (pseudo : Pseudo) :
    Instruction.ofMnemonic? pseudo.mnemonic = some (.pseudo pseudo) := by
  cases pseudo <;> decide

theorem inUnits_emitPushChar (text : List Char) : Emission.InUnits (emitPushChar text) := by
  cases text with
  | nil => exact Emission.inUnits_throw _
  | cons c rest => exact Opcode.inUnits_emit _ _

theorem inUnits_emitPrint (text : List Char) : Emission.InUnits (emitPrint text) := by
  induction text with
  | nil => exact Emission.inUnits_pure
  | cons c rest ih =>
    apply Emission.inUnits_seq
    · exact Emission.inUnits_whole (inUnits_emitPushChar [c])
    · exact Emission.inUnits_seq (Opcode.inUnits_emit _ _) ih

theorem inUnits_emitPrintLine (text : List Char) : Emission.InUnits (emitPrintLine text) := by
  apply Emission.inUnits_seq
  · exact Emission.inUnits_whole (inUnits_emitPrint text)
  · exact Emission.inUnits_seq (Opcode.inUnits_emit _ _) (Opcode.inUnits_emit _ _)

theorem inUnits_emitNamed (pseudo : Pseudo) (opcode : Opcode) (name : String) :
    Emission.InUnits (emitNamed pseudo opcode name) := by
  simp only [emitNamed]
  split
  · exact Emission.inUnits_throw _
  · exact Opcode.inUnits_emit _ _

theorem inUnits_emit (pseudo : Pseudo) (parameter : String) :
    Emission.InUnits (pseudo.emit parameter) := by
  apply Emission.inUnits_whole
  cases pseudo with
  | pushChar => exact inUnits_emitPushChar _
  | printText => exact inUnits_emitPrint _
  | printLine => exact inUnits_emitPrintLine _
  | markNamed => exact inUnits_emitNamed markNamed .mark parameter
  | jumpNamed => exact inUnits_emitNamed jumpNamed .jump parameter
  | callNamed => exact inUnits_emitNamed callNamed .call parameter
  | jumpNamedIfZero => exact inUnits_emitNamed jumpNamedIfZero .jumpIfZero parameter
  | jumpNamedIfNegative => exact inUnits_emitNamed jumpNamedIfNegative .jumpIfNegative parameter

end Pseudo

namespace Command

theorem inUnits_emit (command : Command) : Emission.InUnits command.emit := by
  unfold emit
  split
  · exact Opcode.inUnits_emit _ _
  · exact Pseudo.inUnits_emit _ _
  · exact Emission.inUnits_throw _

theorem program_units {command : Command} {text : String} (emitted : command.program = .ok text) :
    ∃ units, text = CodeUnit.text units := by
  obtain ⟨units, written⟩ := inUnits_emit command ""
  rw [String.empty_append] at written
  unfold program at emitted
  split at emitted
  · rename_i eq
    cases emitted
    rw [eq] at written
    exact ⟨units, written⟩
  · contradiction

end Command

end WhitespaceAsm
