import Mathlib.Data.List.Induction
import WhitespaceAsm.Proofs.CodeUnit
import WhitespaceAsm.Proofs.Spelling

/-! Numbers as parameters. Which texts are numbers, and which number each of them is, is said here
without a bound and without an order of reading; the reader keeps a bounded value and stops at its
first trouble. Still it accepts just the numbers in range. -/
namespace WhitespaceAsm

/-- A digit of a radix and its value. Letters count in either case. -/
def Radix.IsDigit (radix : Radix) (c : Char) (digit : Nat) : Prop :=
  digit < radix.base ∧ (c = digit.digitChar ∨ c = digit.digitChar.toUpper)

theorem digitValue?_eq_some_iff {c : Char} {digit : Nat} :
    digitValue? c = some digit ↔ digit < 16 ∧ (c = digit.digitChar ∨ c = digit.digitChar.toUpper) := by
  constructor
  · intro found
    have decimal : ∀ d < 10, Char.ofNat (d + 48) = d.digitChar := by decide
    have lower : ∀ d < 6, Char.ofNat (d + 97) = (d + 10).digitChar := by decide
    have upper : ∀ d < 6, Char.ofNat (d + 65) = (d + 10).digitChar.toUpper := by decide
    have code : ∀ {a b : Char}, a ≤ b ↔ a.toNat ≤ b.toNat := Char.le_def.trans UInt32.le_iff_toNat_le
    have back : ∀ first ≤ c.toNat, c = Char.ofNat (c.toNat - first + first) := by
      intro first below
      rw [Nat.sub_add_cancel below, Char.ofNat_toNat]
    unfold digitValue? at found
    simp only [code, Char.reduceToNat] at found
    split at found
    · cases found
      exact ⟨by omega, .inl ((back 48 (by omega)).trans (decimal _ (by omega)))⟩
    · split at found
      · cases found
        exact ⟨by omega, .inl ((back 97 (by omega)).trans (lower _ (by omega)))⟩
      · split at found
        · cases found
          exact ⟨by omega, .inr ((back 65 (by omega)).trans (upper _ (by omega)))⟩
        · cases found
  · rintro ⟨small, rfl | rfl⟩
    · have all : ∀ d < 16, digitValue? d.digitChar = some d := by decide
      exact all digit small
    · have all : ∀ d < 16, digitValue? d.digitChar.toUpper = some d := by decide
      exact all digit small

theorem Radix.digit?_eq_some_iff {radix : Radix} {c : Char} {digit : Nat} :
    radix.digit? c = some digit ↔ radix.IsDigit c digit := by
  have base : radix.base ≤ 16 := by cases radix <;> decide
  unfold digit? IsDigit
  rw [Option.filter_eq_some_iff, digitValue?_eq_some_iff]
  simp only [decide_eq_true_eq]
  constructor
  · rintro ⟨⟨_, shown⟩, small⟩
    exact ⟨small, shown⟩
  · rintro ⟨small, shown⟩
    exact ⟨⟨by omega, shown⟩, small⟩

namespace Numeral

inductive Spells (radix : Radix) : List Char → Nat → Prop
  | nil : Spells radix [] 0
  | concat {digits : List Char} {magnitude : Nat} {c : Char} {digit : Nat}
      (before : Spells radix digits magnitude) (last : radix.IsDigit c digit) :
      Spells radix (digits ++ [c]) (radix.base * magnitude + digit)

theorem spells_nil_iff {radix : Radix} {magnitude : Nat} :
    Spells radix [] magnitude ↔ magnitude = 0 := by
  constructor
  · intro spelled
    generalize empty : ([] : List Char) = digits at spelled
    cases spelled with
    | nil => rfl
    | concat => simp at empty
  · rintro rfl
    exact .nil

theorem spells_concat_iff {radix : Radix} {digits : List Char} {c : Char} {magnitude : Nat} :
    Spells radix (digits ++ [c]) magnitude ↔
      ∃ before digit, Spells radix digits before ∧ radix.IsDigit c digit ∧
        magnitude = radix.base * before + digit := by
  constructor
  · intro spelled
    generalize whole : digits ++ [c] = text at spelled
    cases spelled with
    | nil => simp at whole
    | concat before last =>
      obtain ⟨rfl, same⟩ := List.append_inj' whole rfl
      cases same
      exact ⟨_, _, before, last, rfl⟩
  · rintro ⟨before, digit, spelled, last, rfl⟩
    exact .concat spelled last

theorem spells_toDigits (radix : Radix) (n : Nat) : Spells radix (Nat.toDigits radix.base n) n := by
  have base : 1 < radix.base := by cases radix <;> decide
  induction n using Nat.base_induction radix.base base with
  | single digit small =>
    have alone : Spells radix ([] ++ [digit.digitChar]) (radix.base * 0 + digit) :=
      .concat .nil ⟨small, .inl rfl⟩
    rwa [Nat.mul_zero, Nat.zero_add, List.nil_append, ← Nat.toDigits_of_lt_base small] at alone
  | digit before digit small positive ih =>
    rw [← Nat.toDigits_append_toDigits base positive small, Nat.toDigits_of_lt_base small]
    exact .concat ih ⟨small, .inl rfl⟩

variable {radix : Radix} {negative : Bool}

/- One digit: what a value comes to with it, if that is not too far. -/
theorem readDigits_last_ok_iff {magnitude : Nat} {c : Char} {value : Int} :
    readDigits radix negative (signed negative magnitude) [c] = .ok value ↔
      ∃ digit, radix.IsDigit c digit ∧ value = signed negative (radix.base * magnitude + digit) ∧
        InRange value := by
  constructor
  · intro read
    simp only [readDigits, push_signed] at read
    split at read
    · contradiction
    · rename_i digit found
      split at read
      · rename_i inside
        cases read
        exact ⟨digit, Radix.digit?_eq_some_iff.mp found, rfl, inside⟩
      · contradiction
  · rintro ⟨digit, found, rfl, inside⟩
    simp only [readDigits, Radix.digit?_eq_some_iff.mpr found, push_signed, if_pos inside]

theorem readDigits_eq_ok_iff {digits : List Char} {value : Int} :
    readDigits radix negative 0 digits = .ok value ↔
      ∃ magnitude, Spells radix digits magnitude ∧ value = signed negative magnitude ∧
        InRange value := by
  -- From the last digit: the values on the way are no further from zero than the one that is reached.
  induction digits using List.reverseRecOn generalizing value with
  | nil =>
    simp only [readDigits, spells_nil_iff]
    constructor
    · rintro ⟨⟩
      exact ⟨0, rfl, (signed_zero negative).symm, by decide⟩
    · rintro ⟨_, rfl, rfl, _⟩
      rw [signed_zero]
  | append_singleton digits c ih =>
    rw [readDigits_append]
    constructor
    · intro read
      cases front : readDigits radix negative 0 digits with
      | error =>
        rw [front] at read
        contradiction
      | ok reached =>
        rw [front] at read
        obtain ⟨before, spelled, rfl, _⟩ := ih.mp front
        obtain ⟨digit, last, same, inside⟩ := readDigits_last_ok_iff.mp read
        exact ⟨_, .concat spelled last, same, inside⟩
    · rintro ⟨magnitude, spelled, rfl, inside⟩
      obtain ⟨before, digit, leading, last, rfl⟩ := spells_concat_iff.mp spelled
      have closer := inRange_of_le (le_base_mul radix before digit) inside
      rw [ih.mpr ⟨before, leading, rfl, closer⟩]
      exact readDigits_last_ok_iff.mpr ⟨digit, last, rfl, inside⟩

inductive Lead : List Char → Radix → Prop
  | none : Lead [] .decimal
  | hexadecimal : Lead ['0', 'x'] .hexadecimal

inductive Sign : List Char → Bool → Prop
  | none : Sign [] false
  | plus : Sign ['+'] false
  | minus : Sign ['-'] true

/-- The texts of numbers of any size: there may be a `0x` and then a sign, and there are digits. -/
def Denotes (text : List Char) (value : Int) : Prop :=
  ∃ lead radix sign negative digits magnitude,
    Lead lead radix ∧ Sign sign negative ∧ text = lead ++ sign ++ digits ∧ digits ≠ [] ∧
      Spells radix digits magnitude ∧ value = signed negative magnitude

/-- Any text without the `0x` and the sign that it starts with, so far as they are there. -/
def Parts (text : List Char) (radix : Radix) (negative : Bool) (digits : List Char) : Prop :=
  ∃ lead sign, Lead lead radix ∧ Sign sign negative ∧ text = lead ++ sign ++ digits ∧
    (lead = [] → ¬ ['0', 'x'] <+: text) ∧
    (sign = [] → digits.head? ≠ some '+' ∧ digits.head? ≠ some '-')

theorem exists_sign (text : List Char) :
    ∃ sign negative digits, Sign sign negative ∧ text = sign ++ digits ∧
      (sign = [] → digits.head? ≠ some '+' ∧ digits.head? ≠ some '-') := by
  by_cases plus : text.head? = some '+'
  · obtain ⟨digits, rfl⟩ := List.head?_eq_some_iff.mp plus
    exact ⟨_, _, digits, .plus, rfl, by simp⟩
  · by_cases minus : text.head? = some '-'
    · obtain ⟨digits, rfl⟩ := List.head?_eq_some_iff.mp minus
      exact ⟨_, _, digits, .minus, rfl, by simp⟩
    · exact ⟨_, _, text, .none, rfl, fun _ => ⟨plus, minus⟩⟩

theorem exists_parts (text : List Char) : ∃ radix negative digits, Parts text radix negative digits := by
  by_cases hexadecimal : ['0', 'x'] <+: text
  · obtain ⟨rest, rfl⟩ := hexadecimal
    obtain ⟨sign, negative, digits, signed, rfl, bare⟩ := exists_sign rest
    exact ⟨_, negative, digits, _, sign, .hexadecimal, signed, by simp, by simp, bare⟩
  · obtain ⟨sign, negative, digits, signed, rfl, bare⟩ := exists_sign text
    exact ⟨_, negative, digits, [], sign, .none, signed, rfl, fun _ => hexadecimal, bare⟩

theorem read_sign {sign digits : List Char} (signed : Sign sign negative)
    (bare : sign = [] → digits.head? ≠ some '+' ∧ digits.head? ≠ some '-') :
    read radix (sign ++ digits) =
      if digits = [] then .error .invalid else readDigits radix negative 0 digits := by
  have split : splitSign (sign ++ digits) = (negative, digits) := by
    cases signed with
    | none =>
      have other := bare rfl
      unfold splitSign
      split
      · simp_all
      · simp_all
      · rfl
    | plus => rfl
    | minus => rfl
  rw [read, split]
  cases digits with
  | nil => rfl
  | cons c rest => rfl

theorem Spells.isDigit {digits : List Char} {magnitude : Nat} (spelled : Spells radix digits magnitude) :
    ∀ c ∈ digits, ∃ digit, radix.digit? c = some digit := by
  induction spelled with
  | nil => simp
  | concat _ last ih =>
    intro c member
    rcases List.mem_append.mp member with member | member
    · exact ih c member
    · cases List.mem_singleton.mp member
      exact ⟨_, Radix.digit?_eq_some_iff.mpr last⟩

theorem Spells.not_mem {digits : List Char} {magnitude : Nat} (spelled : Spells radix digits magnitude)
    {c : Char} (other : radix.digit? c = none) : c ∉ digits := by
  intro member
  obtain ⟨digit, found⟩ := spelled.isDigit c member
  rw [other] at found
  contradiction

theorem Sign.not_mem {sign : List Char} (signed : Sign sign negative) {c : Char} (plus : c ≠ '+')
    (minus : c ≠ '-') : c ∉ sign := by
  cases signed with
  | none => simp
  | plus => simpa using plus
  | minus => simpa using minus

/- Digits are no signs, and neither the `x` of a `0x` nor the `b` of a `0b` is a decimal digit, so
nothing more could be taken off a number. -/
theorem Denotes.parts {text : List Char} {value : Int} (number : Denotes text value) :
    ¬ ['0', 'b'] <+: text ∧ ∃ radix negative digits magnitude, Parts text radix negative digits ∧
      digits ≠ [] ∧ Spells radix digits magnitude ∧ value = signed negative magnitude := by
  obtain ⟨lead, radix, sign, negative, digits, magnitude, led, signed, rfl, filled, spelled, rfl⟩ :=
    number
  have bare : digits.head? ≠ some '+' ∧ digits.head? ≠ some '-' := by
    have plus : '+' ∉ digits := spelled.not_mem (by cases radix <;> decide)
    have minus : '-' ∉ digits := spelled.not_mem (by cases radix <;> decide)
    exact ⟨fun first => plus (List.mem_of_mem_head? first),
      fun first => minus (List.mem_of_mem_head? first)⟩
  cases led with
  | none =>
    have absent : ∀ c, c ≠ '+' → c ≠ '-' → Radix.decimal.digit? c = none →
        ¬ ['0', c] <+: [] ++ sign ++ digits := by
      intro c plus minus other start
      rcases List.mem_append.mp (start.subset (by simp) : c ∈ sign ++ digits) with member | member
      · exact signed.not_mem plus minus member
      · exact spelled.not_mem other member
    refine ⟨absent 'b' (by decide) (by decide) (by decide), _, _, digits, magnitude, ?_, filled, spelled,
      rfl⟩
    exact ⟨_, sign, .none, signed, rfl, fun _ => absent 'x' (by decide) (by decide) (by decide),
      fun _ => bare⟩
  | hexadecimal =>
    refine ⟨by simp, _, _, digits, magnitude, ?_, filled, spelled, rfl⟩
    exact ⟨_, sign, .hexadecimal, signed, rfl, by simp, fun _ => bare⟩

theorem denotes_toString (value : Int) : Denotes (toString value).toList value := by
  cases value with
  | ofNat n =>
    refine ⟨_, _, _, _, Nat.toDigits 10 n, n, .none, .none, ?_, by simp, spells_toDigits .decimal n, rfl⟩
    exact Nat.toList_repr
  | negSucc n =>
    refine ⟨_, _, _, _, Nat.toDigits 10 (n + 1), n + 1, .none, .minus, ?_, by simp,
      spells_toDigits .decimal (n + 1), rfl⟩
    change ("-" ++ Nat.repr (n + 1)).toList = _
    simp

end Numeral

namespace Parameter

/- A text that is not a `0b` literal is read as a number, and the reader sees the same parts of it. -/
theorem encodeTrimmed_parts {text digits : List Char} {radix : Radix} {negative : Bool}
    (parts : Numeral.Parts text radix negative digits) (some : text ≠ [])
    (number : ¬ ['0', 'b'] <+: text) :
    ∃ numeral, encodeTrimmed text = encodeNumber radix numeral text ∧
      Numeral.read radix numeral =
        if digits = [] then .error .invalid else Numeral.readDigits radix negative 0 digits := by
  obtain ⟨lead, sign, led, signed, rfl, unled, bare⟩ := parts
  refine ⟨sign ++ digits, ?_, Numeral.read_sign signed bare⟩
  cases led with
  | none =>
    have other := unled rfl
    simp only [List.nil_append] at *
    unfold encodeTrimmed
    split
    · contradiction
    · rename_i body same
      exact absurd ⟨body, same.symm⟩ number
    · rename_i body same
      exact absurd ⟨body, same.symm⟩ other
    · rfl
  | hexadecimal => rfl

theorem encodeNumber_eq_ok_iff {radix : Radix} {numeral text : List Char} {tokens : List Token} :
    encodeNumber radix numeral text = .ok tokens ↔
      ∃ value, Numeral.read radix numeral = .ok value ∧ tokens = run (signedDigits value) := by
  unfold encodeNumber
  cases Numeral.read radix numeral with
  | ok value => simp [eq_comm]
  | error cause => cases cause <;> simp

theorem encodeTrimmed_number_iff {text : List Char} {tokens : List Token} :
    encodeTrimmed text = .ok tokens ∧ ¬ ['0', 'b'] <+: text ↔
      ∃ value, Numeral.Denotes text value ∧ Numeral.InRange value ∧
        tokens = run (signedDigits value) := by
  constructor
  · rintro ⟨encoded, number⟩
    have filled : text ≠ [] := by
      rintro rfl
      contradiction
    obtain ⟨radix, negative, digits, parts⟩ := Numeral.exists_parts text
    obtain ⟨numeral, same, read⟩ := encodeTrimmed_parts parts filled number
    obtain ⟨value, accepted, rfl⟩ := encodeNumber_eq_ok_iff.mp (same.symm.trans encoded)
    rw [accepted] at read
    split at read
    · contradiction
    · rename_i some
      obtain ⟨magnitude, spelled, rfl, inside⟩ := Numeral.readDigits_eq_ok_iff.mp read.symm
      obtain ⟨lead, sign, led, signed, whole, _⟩ := parts
      exact ⟨_, ⟨lead, radix, sign, negative, digits, magnitude, led, signed, whole, some, spelled, rfl⟩,
        inside, rfl⟩
  · rintro ⟨value, denoted, inside, rfl⟩
    obtain ⟨number, radix, negative, digits, magnitude, parts, some, spelled, rfl⟩ := denoted.parts
    have filled : text ≠ [] := by
      obtain ⟨lead, sign, _, _, rfl, _⟩ := parts
      simp [some]
    obtain ⟨numeral, same, read⟩ := encodeTrimmed_parts parts filled number
    rw [if_neg some, Numeral.readDigits_eq_ok_iff.mpr ⟨magnitude, spelled, rfl, inside⟩] at read
    exact ⟨same.trans (encodeNumber_eq_ok_iff.mpr ⟨_, read, rfl⟩), number⟩

/-- A number as tokens: a sign, the magnitude in binary and a line feed. -/
def number (value : Int) : List Token :=
  (if value < 0 then .tab else .space) ::
    (Nat.toDigits 2 value.natAbs).map (fun digit => if digit = '1' then .tab else .space) ++ [.lineFeed]

theorem run_signedDigits (value : Int) : run (signedDigits value) = number value := by
  simp [run, signedDigits, number, binaryDigits_eq_toDigits, Token.ofBit]

def value? (tokens : List Token) : Option Int :=
  match readRun tokens with
  | some (sign :: digits, []) => some (Numeral.signed sign (ofBits digits))
  | _ => none

/- Trimmed or not, numbers and literals are told apart by their start. -/
theorem encode_number_iff {text : String} {tokens : List Token} :
    encode text = .ok tokens ∧ ¬ ['0', 'b'] <+: Text.trimmed text.toList ↔
      ∃ value, Numeral.Denotes (Text.trimmed text.toList) value ∧ Numeral.InRange value ∧
        tokens = number value := by
  simp only [← run_signedDigits]
  exact encodeTrimmed_number_iff

theorem value?_number (value : Int) : value? (number value) = some value := by
  have read := readRun_run (signedDigits value) []
  rw [List.append_nil, run_signedDigits] at read
  have sign : Numeral.signed (decide (value < 0)) value.natAbs = value := by
    by_cases below : value < 0
    · simp only [Numeral.signed, below, decide_true, if_true]
      omega
    · simp only [Numeral.signed, below, decide_false, Bool.false_eq_true, if_false]
      omega
  simp only [value?, read, signedDigits, ofBits_binaryDigits, sign]

theorem number_zero : number 0 = [.space, .space, .lineFeed] := by
  rw [number, Int.natAbs_zero, Nat.toDigits_zero]
  rfl

theorem number_leading {value : Int} (other : value ≠ 0) : (number value)[1]? = some .tab := by
  have positive : 0 < value.natAbs := Int.natAbs_pos.mpr other
  obtain ⟨later, digits⟩ := List.head?_eq_some_iff.mp (head_binaryDigits value.natAbs)
  rw [← run_signedDigits, run, signedDigits, digits]
  simp [positive, Token.ofBit]

theorem number_injective {v w : Int} (same : number v = number w) : v = w := by
  have read := value?_number v
  rw [same, value?_number] at read
  exact (Option.some.inj read).symm

theorem number_neg {value : Int} (other : value ≠ 0) :
    ∃ first second rest, number value = first :: rest ∧ number (-value) = second :: rest ∧
      first ≠ second := by
  have mirrored : number (-value) = (if -value < 0 then .tab else .space) :: (number value).tail := by
    rw [number, Int.natAbs_neg]
    rfl
  refine ⟨_, _, (number value).tail, rfl, mirrored, ?_⟩
  by_cases below : value < 0
  · have above : ¬ -value < 0 := by omega
    rw [if_pos below, if_neg above]
    decide
  · have above : -value < 0 := by omega
    rw [if_neg below, if_pos above]
    decide

end Parameter

/-- Encoding accepts the texts of numbers in range, of either radix, and other than those only `0b`
literals. What comes out is the sign and the magnitude, so it can be read back; texts come to the same
tokens just when they are of the same number, and a number and its negative differ in the sign alone.
-/
theorem numbers_encoded_exactly :
    (∀ cs core, Text.trimmed cs = core ↔ Text.Trims cs core) ∧
    (∀ text tokens,
      Parameter.encode text = .ok tokens ∧ ¬ ['0', 'b'] <+: Text.trimmed text.toList ↔
        ∃ value, Numeral.Denotes (Text.trimmed text.toList) value ∧ Numeral.InRange value ∧
          tokens = Parameter.number value) ∧
    (∀ value : Int, Numeral.Denotes (toString value).toList value) ∧
    (Parameter.number 0 = [.space, .space, .lineFeed] ∧
      ∀ value, value ≠ 0 → (Parameter.number value)[1]? = some .tab) ∧
    (∀ value, Parameter.value? (Parameter.number value) = some value) ∧
    (∀ a b v w, Numeral.Denotes (Text.trimmed a.toList) v → Numeral.InRange v →
      Numeral.Denotes (Text.trimmed b.toList) w → Numeral.InRange w →
        (Parameter.encode a = Parameter.encode b ↔ v = w)) ∧
    ∀ a b v, Numeral.Denotes (Text.trimmed a.toList) v → Numeral.InRange v →
      Numeral.Denotes (Text.trimmed b.toList) (-v) → v ≠ 0 → v ≠ -2147483648 →
        ∃ first second rest, Parameter.encode a = .ok (first :: rest) ∧
          Parameter.encode b = .ok (second :: rest) ∧ first ≠ second := by
  have accepted : ∀ {text : String} {value : Int}, Numeral.Denotes (Text.trimmed text.toList) value →
      Numeral.InRange value → Parameter.encode text = .ok (Parameter.number value) := by
    intro text value denoted inside
    exact (Parameter.encode_number_iff.mpr ⟨value, denoted, inside, rfl⟩).1
  refine ⟨fun _ _ => Text.trimmed_eq_iff, fun _ _ => Parameter.encode_number_iff,
    Numeral.denotes_toString, ⟨Parameter.number_zero, fun _ => Parameter.number_leading⟩,
    Parameter.value?_number, ?_, ?_⟩
  · intro a b v w first inside second within
    rw [accepted first inside, accepted second within]
    constructor
    · intro same
      exact Parameter.number_injective (Except.ok.inj same)
    · rintro rfl
      rfl
  · intro a b v first inside second other least
    have within : Numeral.InRange (-v) := by
      unfold Numeral.InRange at *
      omega
    obtain ⟨plus, minus, rest, one, two, differ⟩ := Parameter.number_neg other
    exact ⟨plus, minus, rest, one ▸ accepted first inside, two ▸ accepted second within, differ⟩

example : Parameter.encode " 0x-00A" = Parameter.encode "-10" ∧
    Parameter.encode "-0" = Parameter.encode "+00" := by
  cbv

end WhitespaceAsm
