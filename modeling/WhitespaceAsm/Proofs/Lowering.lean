import WhitespaceAsm.Proofs.Atomicity
import WhitespaceAsm.Proofs.Spelling

/-! What commands come to. A command is lowered to a flat list of units or refused for a cause, and
both are told from its mnemonic and its parameter alone, without expanding anything. Emitting a
command agrees with either relation, and one of them always applies, so together they say what is
emitted and what is not. -/
namespace WhitespaceAsm

namespace CodeUnit

def push (n : Nat) : CodeUnit := ⟨.push, false :: binaryDigits n, by simp [Opcode.takesParameter]⟩

theorem text_push (n : Nat) :
    CodeUnit.text [push n] =
      "  " ++ " " ++ String.ofList ((binaryDigits n).map fun digit => if digit then '\t' else ' ') ++
        "\n" := by
  have char_ofBit : ∀ digit, (Token.ofBit digit).char = if digit then '\t' else ' ' := by decide
  have run_chars : (Parameter.run (binaryDigits n)).map Token.char =
      (binaryDigits n).map (fun digit => if digit then '\t' else ' ') ++ ['\n'] := by
    simp only [Parameter.run, List.map_append, List.map_map, Function.comp_def, char_ofBit]
    rfl
  have chars : CodeUnit.text [push n] =
      String.ofList (' ' :: ' ' :: ' ' :: (Parameter.run (binaryDigits n)).map Token.char) := by
    rw [CodeUnit.text, allTokens, List.flatMap_singleton]
    rfl
  apply String.toList_inj.mp
  simp [chars, run_chars]

def printChar : CodeUnit := ⟨.printChar, [], by simp [Opcode.takesParameter]⟩

def print (text : List Char) : List CodeUnit := text.flatMap fun c => [push c.toNat, printChar]

theorem length_print (text : List Char) : (print text).length = 2 * text.length := by
  induction text with
  | nil => rfl
  | cons c text ih =>
    simp only [print, List.flatMap_cons, List.length_append, List.length_cons, List.length_nil] at *
    omega

theorem text_print_cons (c : Char) (text : List Char) :
    CodeUnit.text (print (c :: text)) =
      CodeUnit.text [push c.toNat] ++ (CodeUnit.text [printChar] ++ CodeUnit.text (print text)) := by
  rw [← text_append, ← text_append]
  rfl

end CodeUnit

/-- The mnemonics whose parameter is a name, each with the instruction that takes the digits of the
name. -/
def Label.instructions : List (String × Opcode) :=
  [("marks", .mark), ("jumps", .jump), ("calls", .call), ("branchzs", .jumpIfZero),
    ("branchltzs", .jumpIfNegative)]

namespace Command

inductive Lowers (command : Command) : List CodeUnit → Prop
  | primitive (unit : CodeUnit) (name : command.mnemonic = unit.opcode.mnemonic)
      (spelled : unit.opcode.takesParameter = true →
        Parameter.encode command.parameter = .ok (Parameter.run unit.digits)) :
      Lowers command [unit]
  | pushChar (name : command.mnemonic = "pushchar") (c : Char) (rest : List Char)
      (text : command.parameter.toList = c :: rest) :
      Lowers command [.push c.toNat]
  | print (name : command.mnemonic = "print") :
      Lowers command (CodeUnit.print command.parameter.toList)
  | printLine (name : command.mnemonic = "println") :
      Lowers command (CodeUnit.print command.parameter.toList ++ [.push 10, .printChar])
  | named (unit : CodeUnit) (listed : (command.mnemonic, unit.opcode) ∈ Label.instructions)
      (spelled : unit.digits = Label.digits (Text.trimmed command.parameter.toList)) :
      Lowers command [unit]

def TakesNumber (command : Command) : Prop :=
  ∃ opcode : Opcode, opcode.takesParameter = true ∧ command.mnemonic = opcode.mnemonic

def TakesName (command : Command) : Prop := command.mnemonic ∈ Label.instructions.map Prod.fst

inductive Refused (command : Command) : CommandError → Prop
  | unknown (absent : command.mnemonic ∉ Instruction.all.map Instruction.mnemonic) :
      Refused command (.unknownMnemonic command.mnemonic)
  | blank (takes : command.TakesNumber ∨ command.TakesName) (trimmed : Text.trim command.parameter = "") :
      Refused command (.missingParameter command.mnemonic)
  | noCharacter (name : command.mnemonic = "pushchar") (empty : command.parameter = "") :
      Refused command (.missingParameter command.mnemonic)
  | malformed (takes : command.TakesNumber) (flaw : Parameter.Flaw)
      (flawed : Parameter.encode command.parameter = .error (.malformed flaw)) :
      Refused command (.malformedParameter command.mnemonic flaw)

end Command

theorem Opcode.yields_unit (unit : CodeUnit) (parameter : String)
    (spelled : unit.opcode.takesParameter = true →
      Parameter.encode parameter = .ok (Parameter.run unit.digits)) :
    (unit.opcode.emit parameter).Yields (.ok (CodeUnit.text [unit])) := by
  rw [emit_unit unit parameter spelled]
  exact Emission.yields_append _

namespace Pseudo

theorem yields_printChar : (Opcode.printChar.emit "").Yields (.ok (CodeUnit.text [.printChar])) :=
  Opcode.yields_unit .printChar "" fun takes => by contradiction

/- The code of a character goes through its decimal text, which every 32-bit number survives. -/
theorem yields_emitPushChar (c : Char) (rest : List Char) :
    (emitPushChar (c :: rest)).Yields (.ok (CodeUnit.text [.push c.toNat])) := by
  have inside : Numeral.InRange c.toNat := by
    have valid : c.toNat < 0xd800 ∨ 0xdfff < c.toNat ∧ c.toNat < 0x110000 := c.valid
    unfold Numeral.InRange
    omega
  exact Opcode.yields_unit (.push c.toNat) _ fun _ => Parameter.encode_decimal inside

theorem yields_emitPrint (text : List Char) :
    (emitPrint text).Yields (.ok (CodeUnit.text (CodeUnit.print text))) := by
  induction text with
  | nil => exact Emission.yields_pure
  | cons c text ih =>
    rw [CodeUnit.text_print_cons]
    apply Emission.yields_seq
    · exact Emission.yields_whole_ok (yields_emitPushChar c [])
    · exact Emission.yields_seq yields_printChar ih

theorem yields_emitPrintLine (text : List Char) :
    (emitPrintLine text).Yields
      (.ok (CodeUnit.text (CodeUnit.print text ++ [.push 10, .printChar]))) := by
  have lineFeed : (Opcode.push.emit "0x0A").Yields (.ok (CodeUnit.text [.push 10])) :=
    Opcode.yields_unit (.push 10) "0x0A" fun _ => rfl
  have parts : CodeUnit.text (CodeUnit.print text ++ [.push 10, .printChar]) =
      CodeUnit.text (CodeUnit.print text) ++
        (CodeUnit.text [.push 10] ++ CodeUnit.text [.printChar]) := by
    rw [← CodeUnit.text_append, ← CodeUnit.text_append]
    rfl
  rw [parts]
  apply Emission.yields_seq
  · exact Emission.yields_whole_ok (yields_emitPrint text)
  · exact Emission.yields_seq lineFeed yields_printChar

theorem yields_emitNamed (pseudo : Pseudo) (unit : CodeUnit) {name : String}
    (some : Text.trim name ≠ "") (spelled : unit.digits = Label.digits (Text.trimmed name.toList)) :
    (emitNamed pseudo unit.opcode name).Yields (.ok (CodeUnit.text [unit])) := by
  have inked : (Text.trim name).toList ≠ [] := by simpa using some
  simp only [emitNamed, String.isEmpty_iff, if_neg some]
  apply Opcode.yields_unit
  intro _
  rw [Label.encode_literal inked, Text.toList_trim, spelled]

theorem yields_emitNamed_blank (pseudo : Pseudo) (opcode : Opcode) {name : String}
    (blank : Text.trim name = "") :
    (emitNamed pseudo opcode name).Yields (.error (.missingParameter pseudo.mnemonic)) := by
  simp only [emitNamed, String.isEmpty_iff, if_pos blank]
  exact Emission.yields_throw _

end Pseudo

namespace Instruction

theorem ofMnemonic?_eq_none_iff {name : String} :
    ofMnemonic? name = none ↔ name ∉ all.map Instruction.mnemonic := by
  simp [ofMnemonic?]

theorem mnemonic_of_ofMnemonic? {name : String} {instruction : Instruction}
    (found : ofMnemonic? name = some instruction) : name = instruction.mnemonic := by
  have same : instruction.mnemonic = name := by simpa using List.find?_some found
  exact same.symm

end Instruction

namespace Command

variable {command : Command}

theorem emit_primitive (opcode : Opcode) (name : command.mnemonic = opcode.mnemonic) :
    command.emit = opcode.emit command.parameter := by
  rw [emit, name, opcode.ofMnemonic?_mnemonic]

theorem emit_pseudo (pseudo : Pseudo) (name : command.mnemonic = pseudo.mnemonic) :
    command.emit = pseudo.emit command.parameter := by
  rw [emit, name, pseudo.ofMnemonic?_mnemonic]

/- The instructions with a name differ in their mnemonics and codes only. -/
theorem emit_named {opcode : Opcode} (listed : (command.mnemonic, opcode) ∈ Label.instructions) :
    opcode.takesParameter = true ∧ ∃ pseudo : Pseudo, command.mnemonic = pseudo.mnemonic ∧
      command.emit = Emission.whole (Pseudo.emitNamed pseudo opcode command.parameter) := by
  simp only [Label.instructions, List.mem_cons, Prod.mk.injEq, List.not_mem_nil, or_false] at listed
  rcases listed with ⟨name, rfl⟩ | ⟨name, rfl⟩ | ⟨name, rfl⟩ | ⟨name, rfl⟩ | ⟨name, rfl⟩
  · exact ⟨rfl, .markNamed, name, emit_pseudo .markNamed name⟩
  · exact ⟨rfl, .jumpNamed, name, emit_pseudo .jumpNamed name⟩
  · exact ⟨rfl, .callNamed, name, emit_pseudo .callNamed name⟩
  · exact ⟨rfl, .jumpNamedIfZero, name, emit_pseudo .jumpNamedIfZero name⟩
  · exact ⟨rfl, .jumpNamedIfNegative, name, emit_pseudo .jumpNamedIfNegative name⟩

theorem Lowers.yields {units : List CodeUnit} (lowers : command.Lowers units) :
    command.emit.Yields (.ok (CodeUnit.text units)) := by
  cases lowers with
  | primitive unit name spelled =>
    rw [emit_primitive unit.opcode name]
    exact Opcode.yields_unit unit _ spelled
  | pushChar name c rest text =>
    rw [emit_pseudo .pushChar name]
    apply Emission.yields_whole_ok
    rw [Pseudo.expand, text]
    exact Pseudo.yields_emitPushChar c rest
  | print name =>
    rw [emit_pseudo .printText name]
    exact Emission.yields_whole_ok (Pseudo.yields_emitPrint _)
  | printLine name =>
    rw [emit_pseudo .printLine name]
    exact Emission.yields_whole_ok (Pseudo.yields_emitPrintLine _)
  | named unit listed spelled =>
    obtain ⟨takes, pseudo, _, emitted⟩ := emit_named listed
    have inked : Text.trim command.parameter ≠ "" := by
      intro blank
      rw [Text.trim_eq_empty_iff_trimmed.mp blank] at spelled
      exact unit.digits_iff.mpr takes spelled
    rw [emitted]
    exact Emission.yields_whole_ok (Pseudo.yields_emitNamed pseudo unit inked spelled)

theorem Refused.yields {cause : CommandError} (refused : command.Refused cause) :
    command.emit.Yields (.error cause) := by
  cases refused with
  | unknown absent =>
    rw [emit, Instruction.ofMnemonic?_eq_none_iff.mpr absent]
    exact Emission.yields_throw _
  | blank takes trimmed =>
    rcases takes with ⟨opcode, takes, name⟩ | listed
    · rw [emit_primitive opcode name, name,
        Opcode.emit_missing takes (Parameter.encode_eq_missing_iff.mpr trimmed)]
      exact Emission.yields_throw _
    · obtain ⟨⟨_, opcode⟩, listed, rfl⟩ := List.mem_map.mp listed
      obtain ⟨_, pseudo, name, emitted⟩ := emit_named listed
      rw [emitted, name]
      exact Emission.yields_whole_error (Pseudo.yields_emitNamed_blank pseudo opcode trimmed)
  | noCharacter name empty =>
    rw [emit_pseudo .pushChar name, name, empty]
    exact Emission.yields_whole_error (Emission.yields_throw _)
  | malformed takes flaw flawed =>
    obtain ⟨opcode, takes, name⟩ := takes
    rw [emit_primitive opcode name, name, Opcode.emit_malformed takes flawed]
    exact Emission.yields_throw _

theorem primitive_lowers_or_refused {opcode : Opcode} (name : command.mnemonic = opcode.mnemonic) :
    (∃ units, command.Lowers units) ∨ ∃ cause, command.Refused cause := by
  by_cases takes : opcode.takesParameter = true
  · have number : command.TakesNumber := ⟨opcode, takes, name⟩
    cases encoded : Parameter.encode command.parameter with
    | ok tokens =>
      obtain ⟨digits, some, rfl⟩ := Parameter.encode_run encoded
      exact .inl ⟨_, .primitive ⟨opcode, digits, by simp [takes, some]⟩ name fun _ => encoded⟩
    | error error =>
      cases error with
      | missing => exact .inr ⟨_, .blank (.inl number) (Parameter.encode_eq_missing_iff.mp encoded)⟩
      | malformed flaw => exact .inr ⟨_, .malformed number flaw encoded⟩
  · exact .inl ⟨_, .primitive ⟨opcode, [], by simp [takes]⟩ name fun takes' => absurd takes' takes⟩

theorem named_lowers_or_refused (opcode : Opcode)
    (listed : (command.mnemonic, opcode) ∈ Label.instructions) :
    (∃ units, command.Lowers units) ∨ ∃ cause, command.Refused cause := by
  by_cases blank : Text.trim command.parameter = ""
  · exact .inr ⟨_, .blank (.inr (List.mem_map.mpr ⟨_, listed, rfl⟩)) blank⟩
  · have some := Label.digits_ne_nil (mt Text.trim_eq_empty_iff_trimmed.mpr blank)
    have takes := (emit_named listed).1
    exact .inl ⟨_, .named ⟨opcode, _, iff_of_true some takes⟩ listed rfl⟩

theorem lowers_or_refused (command : Command) :
    (∃ units, command.Lowers units) ∨ ∃ cause, command.Refused cause := by
  cases found : Instruction.ofMnemonic? command.mnemonic with
  | none => exact .inr ⟨_, .unknown (Instruction.ofMnemonic?_eq_none_iff.mp found)⟩
  | some instruction =>
    have name := Instruction.mnemonic_of_ofMnemonic? found
    cases instruction with
    | primitive opcode => exact primitive_lowers_or_refused name
    | pseudo shorthand =>
      cases shorthand with
      | pushChar =>
        cases text : command.parameter.toList with
        | nil => exact .inr ⟨_, .noCharacter name (String.toList_eq_nil_iff.mp text)⟩
        | cons c rest => exact .inl ⟨_, .pushChar name c rest text⟩
      | printText => exact .inl ⟨_, .print name⟩
      | printLine => exact .inl ⟨_, .printLine name⟩
      | markNamed => exact named_lowers_or_refused .mark (by rw [name]; decide)
      | jumpNamed => exact named_lowers_or_refused .jump (by rw [name]; decide)
      | callNamed => exact named_lowers_or_refused .call (by rw [name]; decide)
      | jumpNamedIfZero => exact named_lowers_or_refused .jumpIfZero (by rw [name]; decide)
      | jumpNamedIfNegative => exact named_lowers_or_refused .jumpIfNegative (by rw [name]; decide)

theorem program_eq_ok_iff {text : String} :
    command.program = .ok text ↔ ∃ units, command.Lowers units ∧ text = CodeUnit.text units := by
  constructor
  · intro emitted
    rcases command.lowers_or_refused with ⟨units, lowers⟩ | ⟨cause, refused⟩
    · rw [program_of_yields lowers.yields] at emitted
      exact ⟨units, lowers, (Except.ok.inj emitted).symm⟩
    · rw [program_of_yields refused.yields] at emitted
      contradiction
  · rintro ⟨units, lowers, rfl⟩
    exact program_of_yields lowers.yields

theorem program_eq_error_iff {cause : CommandError} :
    command.program = .error cause ↔ command.Refused cause := by
  constructor
  · intro failed
    rcases command.lowers_or_refused with ⟨units, lowers⟩ | ⟨other, refused⟩
    · rw [program_of_yields lowers.yields] at failed
      contradiction
    · rw [program_of_yields refused.yields] at failed
      exact Except.error.inj failed ▸ refused
  · intro refused
    exact program_of_yields refused.yields

/- Units can be read back from their text, so a command stands for one list of them. -/
theorem Lowers.unique {a b : List CodeUnit} (first : command.Lowers a) (second : command.Lowers b) :
    a = b := by
  have same : CodeUnit.text a = CodeUnit.text b :=
    Except.ok.inj ((program_of_yields first.yields).symm.trans (program_of_yields second.yields))
  apply CodeUnit.program_injective
  rw [← CodeUnit.bytes_text, ← CodeUnit.bytes_text, same]

theorem refused_unknown_iff {name : String} :
    command.Refused (.unknownMnemonic name) ↔
      name = command.mnemonic ∧ command.mnemonic ∉ Instruction.all.map Instruction.mnemonic := by
  constructor
  · intro refused
    cases refused with
    | unknown absent => exact ⟨rfl, absent⟩
  · rintro ⟨rfl, absent⟩
    exact .unknown absent

theorem refused_missing_iff {name : String} :
    command.Refused (.missingParameter name) ↔
      name = command.mnemonic ∧
        ((command.TakesNumber ∨ command.TakesName) ∧ Text.trim command.parameter = "" ∨
          command.mnemonic = "pushchar" ∧ command.parameter = "") := by
  constructor
  · intro refused
    cases refused with
    | blank takes trimmed => exact ⟨rfl, .inl ⟨takes, trimmed⟩⟩
    | noCharacter name empty => exact ⟨rfl, .inr ⟨name, empty⟩⟩
  · rintro ⟨rfl, ⟨takes, trimmed⟩ | ⟨name, empty⟩⟩
    · exact .blank takes trimmed
    · exact .noCharacter name empty

theorem refused_malformed_iff {name : String} {flaw : Parameter.Flaw} :
    command.Refused (.malformedParameter name flaw) ↔
      name = command.mnemonic ∧ command.TakesNumber ∧
        Parameter.encode command.parameter = .error (.malformed flaw) := by
  constructor
  · intro refused
    cases refused with
    | malformed takes flaw flawed => exact ⟨rfl, takes, flawed⟩
  · rintro ⟨rfl, takes, flawed⟩
    exact .malformed takes flaw flawed

theorem not_takesNumber_of_takesName (named : command.TakesName) : ¬ command.TakesNumber := by
  rintro ⟨opcode, _, name⟩
  have apart : opcode.mnemonic ∉ Label.instructions.map Prod.fst := by cases opcode <;> decide
  exact apart (name ▸ named)

theorem ending_eq_ok_iff (text : String) :
    (command.emit.onto text).1 = .ok () ↔ ∀ cause, ¬ command.Refused cause := by
  simp only [← program_eq_error_iff, ← ending_eq_error_iff text]
  cases (command.emit.onto text).1 with
  | ok => simp
  | error cause => simp

end Command

/-- However deep a command is expanded, its text is that of a flat list of units: the unit of a
primitive instruction itself, a push for a character, a push and a print for each character of a
text, or the instruction that belongs to a name. There is nothing else that a command is emitted as.
-/
theorem program_is_flat_lowering (command : Command) :
    (∀ text, command.emit.onto "" = (.ok (), text) ↔
      ∃ units, command.Lowers units ∧ text = CodeUnit.text units) ∧
    (∀ units, command.Lowers units → command.mnemonic = "print" →
      units.length = 2 * command.parameter.length) ∧
    (∀ n, CodeUnit.text [.push n] =
      "  " ++ " " ++ String.ofList ((binaryDigits n).map fun digit => if digit then '\t' else ' ') ++
        "\n") ∧
    (∀ n, binaryDigits n = (Nat.toDigits 2 n).map (· == '1')) ∧
    ∀ name, Label.digits name = (name.flatMap fun c => Nat.toDigits 2 c.toNat).map (· == '1') := by
  refine ⟨?_, ?_, CodeUnit.text_push, binaryDigits_eq_toDigits, Label.digits_eq_toDigits⟩
  · intro text
    rw [Command.onto_eq_ok_iff, Command.program_eq_ok_iff]
  · intro units lowers name
    rw [lowers.unique (.print name), CodeUnit.length_print, String.length_toList]

/-- Commands are refused for these causes and no others. The error names the command as it was
written, never an instruction that it is expanded to, and it depends on nothing that was emitted
before. -/
theorem command_refused_exactly (command : Command) (text : String) :
    let ending := (command.emit.onto text).1
    let known := command.mnemonic ∈ Instruction.all.map Instruction.mnemonic
    let missing := (command.TakesNumber ∨ command.TakesName) ∧ Text.trim command.parameter = "" ∨
      command.mnemonic = "pushchar" ∧ command.parameter = ""
    let malformed := fun flaw =>
      command.TakesNumber ∧ Parameter.encode command.parameter = .error (.malformed flaw)
    (∀ name, ending = .error (.unknownMnemonic name) ↔ name = command.mnemonic ∧ ¬ known) ∧
    (∀ name, ending = .error (.missingParameter name) ↔ name = command.mnemonic ∧ missing) ∧
    (∀ name flaw, ending = .error (.malformedParameter name flaw) ↔
      name = command.mnemonic ∧ malformed flaw) ∧
    (ending = .ok () ↔ known ∧ ¬ missing ∧ ∀ flaw, ¬ malformed flaw) ∧
    (command.mnemonic ∈ ["print", "println"] → ending = .ok ()) ∧
    (∀ opcode : Opcode, command.mnemonic = opcode.mnemonic → opcode.takesParameter = false →
      ending = .ok ()) ∧
    (command.TakesName → ∀ name flaw, ending ≠ .error (.malformedParameter name flaw)) ∧
    (Text.trim command.parameter = "" ↔ ∀ c ∈ command.parameter.toList, c.toNat ∈ Text.whiteSpace) ∧
    (Instruction.all.map Instruction.mnemonic).Nodup ∧ Instruction.all.length = 32 := by
  intro ending known missing malformed
  have refused : ∀ cause, ending = .error cause ↔ command.Refused cause := by
    intro cause
    rw [Command.ending_eq_error_iff text, Command.program_eq_error_iff]
  have lowered : ∀ units, command.Lowers units → ending = .ok () := by
    intro units lowers
    exact congrArg Prod.fst (lowers.yields text)
  refine ⟨?_, ?_, ?_, ?_, ?_, ?_, ?_, Text.trim_eq_empty_iff, by decide, by decide⟩
  · intro name
    rw [refused, Command.refused_unknown_iff]
  · intro name
    rw [refused, Command.refused_missing_iff]
  · intro name flaw
    rw [refused, Command.refused_malformed_iff]
  · rw [Command.ending_eq_ok_iff text]
    constructor
    · intro accepted
      refine ⟨Decidable.not_not.mp fun absent => accepted _ (.unknown absent), ?_, ?_⟩
      · intro lacking
        exact accepted _ (Command.refused_missing_iff.mpr ⟨rfl, lacking⟩)
      · intro flaw flawed
        exact accepted _ (Command.refused_malformed_iff.mpr ⟨rfl, flawed⟩)
    · rintro ⟨present, complete, formed⟩ cause failed
      cases cause with
      | unknownMnemonic name => exact (Command.refused_unknown_iff.mp failed).2 present
      | missingParameter name => exact complete (Command.refused_missing_iff.mp failed).2
      | malformedParameter name flaw => exact formed flaw (Command.refused_malformed_iff.mp failed).2
  · intro printing
    simp only [List.mem_cons, List.not_mem_nil, or_false] at printing
    rcases printing with name | name
    · exact lowered _ (.print name)
    · exact lowered _ (.printLine name)
  · intro opcode name bare
    exact lowered _ (.primitive ⟨opcode, [], by simp [bare]⟩ name fun takes => by simp [bare] at takes)
  · intro named name flaw failed
    rw [refused, Command.refused_malformed_iff] at failed
    exact Command.not_takesNumber_of_takesName named failed.2.1

end WhitespaceAsm
