import WhitespaceAsm.Proofs.Lowering

/-! When labels meet. A jump finds a mark by the digits after its code, and a name is told by nothing
else. Digits of different names may run together to the same ones, but not if all characters have codes
of one width: then the digits fall apart again, from the first character on. -/
namespace WhitespaceAsm

theorem Parameter.run_injective {a b : List Bool} (same : run a = run b) : a = b := by
  have read := readRun_run a []
  rw [same, readRun_run] at read
  exact (congrArg Prod.fst (Option.some.inj read)).symm

theorem digitChars_injective {a b : List Bool} (same : digitChars a = digitChars b) : a = b := by
  have read := Parameter.literalDigits_digitChars a
  rw [same, Parameter.literalDigits_digitChars] at read
  exact (Except.ok.inj read).symm

namespace Label

theorem literal_eq_iff {x y : String} : literal x = literal y ↔ digits x.toList = digits y.toList := by
  constructor
  · intro same
    rw [literal_eq, literal_eq, String.ofList_inj] at same
    exact digitChars_injective (List.cons.inj (List.cons.inj same).2).2
  · intro same
    rw [literal_eq, literal_eq, same]

def OfWidth (width : Nat) (name : List Char) : Prop :=
  ∀ c ∈ name, (Nat.toDigits 2 c.toNat).length = width

theorem digits_injective {width : Nat} {x y : List Char} (one : OfWidth width x) (two : OfWidth width y)
    (same : digits x = digits y) : x = y := by
  -- Over both names: the first characters take the same number of digits, so these are the same, and so
  -- is what comes after them. A name never runs out alone, as each character has digits.
  induction x generalizing y with
  | nil =>
    cases y with
    | nil => rfl
    | cons d y => exact absurd same.symm (digits_ne_nil (by simp))
  | cons c x ih =>
    cases y with
    | nil => exact absurd same (digits_ne_nil (by simp))
    | cons d y =>
      have widths : (binaryDigits c.toNat).length = (binaryDigits d.toNat).length := by
        simp only [binaryDigits_eq_toDigits, List.length_map]
        rw [one c (by simp), two d (by simp)]
      obtain ⟨first, later⟩ := List.append_inj same widths
      have head : c = d := Char.toNat_inj.mp (binaryDigits_injective first)
      have tail : x = y := by
        apply ih _ _ later
        · exact fun e member => one e (by simp [member])
        · exact fun e member => two e (by simp [member])
      rw [head, tail]

theorem ofWidth_letters {name : List Char} (letters : ∀ c ∈ name, c.isAlpha = true ∨ c = '_') :
    OfWidth 7 name := by
  intro c member
  have bounds : 64 ≤ c.toNat ∧ c.toNat < 128 := by
    rcases letters c member with letter | rfl
    · change (decide ('A'.val ≤ c.val ∧ c.val ≤ 'Z'.val) ||
        (decide ('a'.val ≤ c.val) && decide (c.val ≤ 'z'.val))) = true at letter
      have range : (65 ≤ c.toNat ∧ c.toNat ≤ 90) ∨ (97 ≤ c.toNat ∧ c.toNat ≤ 122) := by
        simpa [UInt32.le_iff_toNat_le] using letter
      omega
    · decide
  have all : ∀ n < 128, 64 ≤ n → (Nat.toDigits 2 n).length = 7 := by decide
  exact all c.toNat bounds.2 bounds.1

end Label

namespace Command

variable {command : Command}

/- The five instructions that take a name have codes of three tokens and differ in nothing else. -/
theorem exists_named_unit {opcode : Opcode}
    (listed : (command.mnemonic, opcode) ∈ Label.instructions)
    (inked : Text.trim command.parameter ≠ "") :
    opcode.code.length = 3 ∧ ∃ unit : CodeUnit, unit.opcode = opcode ∧
      unit.digits = Label.digits (Text.trimmed command.parameter.toList) := by
  have three : ∀ entry ∈ Label.instructions, entry.2.code.length = 3 := by decide
  have takes := (emit_named listed).1
  have filled := Label.digits_ne_nil (mt Text.trim_eq_empty_iff_trimmed.mpr inked)
  exact ⟨three _ listed, ⟨opcode, _, iff_of_true filled takes⟩, rfl, rfl⟩

theorem onto_named (unit : CodeUnit) (listed : (command.mnemonic, unit.opcode) ∈ Label.instructions)
    (spelled : unit.digits = Label.digits (Text.trimmed command.parameter.toList)) (text : String) :
    command.emit.onto text =
      (.ok (), text ++ (Token.text unit.opcode.code ++ Token.text (Parameter.run unit.digits))) := by
  have emitted := (Lowers.named unit listed spelled).yields text
  rw [CodeUnit.text_singleton, CodeUnit.parameter, if_pos (emit_named listed).1] at emitted
  exact emitted

end Command

/-- The digits that two commands give for their names are the same just when the names have the same
literal; and if all characters of both names have codes of one width, as ASCII letters and underscores
do, just when the names are the same. So a jump, a call or a branch finds no mark of another name. -/
theorem named_labels_meet {first second : Command} {one two : Opcode}
    (listed : (first.mnemonic, one) ∈ Label.instructions)
    (other : (second.mnemonic, two) ∈ Label.instructions)
    (inked : Text.trim first.parameter ≠ "") (named : Text.trim second.parameter ≠ "") :
    let x := Text.trim first.parameter
    let y := Text.trim second.parameter
    ∃ here there,
      (∀ text, first.emit.onto text =
        (.ok (), text ++ (Token.text one.code ++ Token.text here))) ∧
      (∀ text, second.emit.onto text =
        (.ok (), text ++ (Token.text two.code ++ Token.text there))) ∧
      one.code.length = 3 ∧ two.code.length = 3 ∧
      (here = there ↔ Label.literal x = Label.literal y) ∧
      (∀ width, Label.OfWidth width x.toList → Label.OfWidth width y.toList →
        (here = there ↔ x = y)) ∧
      ∀ name, (∀ c ∈ name, c.isAlpha = true ∨ c = '_') → Label.OfWidth 7 name := by
  intro x y
  obtain ⟨three, a, rfl, spelled⟩ := Command.exists_named_unit listed inked
  obtain ⟨also, b, rfl, written⟩ := Command.exists_named_unit other named
  have letters : ∀ name, (Text.trim name).toList = Text.trimmed name.toList := by simp [Text.trim]
  have meet : Parameter.run a.digits = Parameter.run b.digits ↔
      Label.digits x.toList = Label.digits y.toList := by
    rw [letters, letters, ← spelled, ← written]
    exact ⟨Parameter.run_injective, congrArg Parameter.run⟩
  refine ⟨_, _, Command.onto_named a listed spelled, Command.onto_named b other written, three, also,
    meet.trans Label.literal_eq_iff.symm, ?_, fun _ => Label.ofWidth_letters⟩
  intro width wide equally
  rw [meet]
  constructor
  · intro same
    exact String.toList_inj.mp (Label.digits_injective wide equally same)
  · intro same
    rw [same]

/-- A jump whose name is written backwards misses the mark. -/
theorem backward_name_misses_mark :
    let mark : Command := ⟨"marks", " done"⟩
    let jump : Command := ⟨"jumps", "enod\t"⟩
    ((mark.mnemonic, .mark) ∈ Label.instructions ∧ (jump.mnemonic, .jump) ∈ Label.instructions ∧
      Text.trim mark.parameter = "done" ∧ Text.trim jump.parameter = "enod") ∧
    ∃ here there, mark.emit.onto "" = (.ok (), Token.text Opcode.mark.code ++ Token.text here) ∧
      jump.emit.onto "" = (.ok (), Token.text Opcode.jump.code ++ Token.text there) ∧
      here ≠ there := by
  intro mark jump
  have x : Text.trim mark.parameter = "done" := by decide
  have y : Text.trim jump.parameter = "enod" := by decide
  have listed : (mark.mnemonic, Opcode.mark) ∈ Label.instructions := by decide
  have other : (jump.mnemonic, Opcode.jump) ∈ Label.instructions := by decide
  obtain ⟨here, there, emitted, sent, _, _, _, alike, letters⟩ :=
    named_labels_meet listed other (by rw [x]; decide) (by rw [y]; decide)
  have apart : here ≠ there := by
    rw [Ne, alike 7 (letters _ (by simp [x])) (letters _ (by simp [y])), x, y]
    decide
  exact ⟨⟨listed, other, x, y⟩, here, there, by simpa using emitted "", by simpa using sent "", apart⟩

-- Without a common width different names may well meet.
example : Label.literal "\x01\x02" = Label.literal "\x06" := by cbv

end WhitespaceAsm
