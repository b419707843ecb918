import WhitespaceAsm.Proofs.Numbers

/-! What is wrong with a parameter. A text may have several flaws at once, and the first one that is
met from left to right is told: in a `0b` literal the leftmost character that is no digit, in a number
whichever comes first of a character that is no digit and a digit that leaves the range. -/
namespace WhitespaceAsm

namespace Numeral

/-- Some of the leading digits alone are a number out of range. -/
def Leaves (radix : Radix) (negative : Bool) (digits : List Char) : Prop :=
  ∃ front magnitude, front <+: digits ∧ front ≠ [] ∧ Spells radix front magnitude ∧
    ¬ InRange (signed negative magnitude)

def Unreadable (radix : Radix) (digits : List Char) : Prop :=
  digits = [] ∨ ∃ c ∈ digits, ∀ digit, ¬ radix.IsDigit c digit

variable {radix : Radix} {negative : Bool} {digits : List Char}

theorem readDigits_last_outOfRange_iff {magnitude : Nat} {c : Char} :
    readDigits radix negative (signed negative magnitude) [c] = .error .outOfRange ↔
      ∃ digit, radix.IsDigit c digit ∧
        ¬ InRange (signed negative (radix.base * magnitude + digit)) := by
  constructor
  · intro read
    simp only [readDigits, push_signed] at read
    split at read
    · contradiction
    · rename_i digit found
      split at read
      · contradiction
      · rename_i outside
        exact ⟨digit, Radix.digit?_eq_some_iff.mp found, outside⟩
  · rintro ⟨digit, found, outside⟩
    simp only [readDigits, Radix.digit?_eq_some_iff.mpr found, push_signed, if_neg outside]

theorem Spells.leaves {magnitude : Nat} (spelled : Spells radix digits magnitude)
    (outside : ¬ InRange (signed negative magnitude)) : Leaves radix negative digits := by
  refine ⟨digits, magnitude, List.prefix_refl digits, ?_, spelled, outside⟩
  rintro rfl
  rw [spells_nil_iff.mp spelled, signed_zero] at outside
  exact outside (by decide)

theorem not_leaves_nil : ¬ Leaves radix negative [] := by
  rintro ⟨front, magnitude, start, filled, _⟩
  exact filled (List.prefix_nil.mp start)

theorem leaves_concat_iff {c : Char} :
    Leaves radix negative (digits ++ [c]) ↔
      Leaves radix negative digits ∨
        ∃ magnitude, Spells radix (digits ++ [c]) magnitude ∧ ¬ InRange (signed negative magnitude) := by
  constructor
  · rintro ⟨front, magnitude, start, filled, spelled, outside⟩
    rcases List.prefix_concat_iff.mp start with rfl | start
    · exact .inr ⟨magnitude, spelled, outside⟩
    · exact .inl ⟨front, magnitude, start, filled, spelled, outside⟩
  · rintro (⟨front, magnitude, start, early⟩ | ⟨magnitude, spelled, outside⟩)
    · exact ⟨front, magnitude, start.trans (List.prefix_append _ _), early⟩
    · exact spelled.leaves outside

theorem readDigits_eq_outOfRange_iff :
    readDigits radix negative 0 digits = .error .outOfRange ↔ Leaves radix negative digits := by
  induction digits using List.reverseRecOn with
  | nil =>
    constructor
    · intro read
      contradiction
    · intro leaves
      exact absurd leaves not_leaves_nil
  | append_singleton digits c ih =>
    rw [readDigits_append, leaves_concat_iff]
    constructor
    · intro read
      cases front : readDigits radix negative 0 digits with
      | error cause =>
        rw [front] at read
        cases read
        exact .inl (ih.mp front)
      | ok reached =>
        rw [front] at read
        obtain ⟨magnitude, spelled, rfl, _⟩ := readDigits_eq_ok_iff.mp front
        obtain ⟨digit, last, outside⟩ := readDigits_last_outOfRange_iff.mp read
        exact .inr ⟨_, .concat spelled last, outside⟩
    · intro leaves
      by_cases early : Leaves radix negative digits
      · rw [ih.mpr early]
        rfl
      · obtain ⟨magnitude, spelled, outside⟩ := leaves.resolve_left early
        obtain ⟨before, digit, leading, last, rfl⟩ := spells_concat_iff.mp spelled
        have inside : InRange (signed negative before) := by
          by_contra beyond
          exact early (leading.leaves beyond)
        rw [readDigits_eq_ok_iff.mpr ⟨before, leading, rfl, inside⟩]
        exact readDigits_last_outOfRange_iff.mpr ⟨digit, last, outside⟩

theorem exists_spells (all : ∀ c ∈ digits, ∃ digit, radix.IsDigit c digit) :
    ∃ magnitude, Spells radix digits magnitude := by
  induction digits using List.reverseRecOn with
  | nil => exact ⟨0, .nil⟩
  | append_singleton digits c ih =>
    obtain ⟨magnitude, spelled⟩ := ih fun d member => all d (by simp [member])
    obtain ⟨digit, last⟩ := all c (by simp)
    exact ⟨_, .concat spelled last⟩

/- A stray character is what is told only if the digits before it stay in range. -/
theorem readDigits_eq_invalid_iff :
    readDigits radix negative 0 digits = .error .invalid ↔
      ¬ Leaves radix negative digits ∧ ∃ c ∈ digits, ∀ digit, ¬ radix.IsDigit c digit := by
  constructor
  · intro read
    have inside : ¬ Leaves radix negative digits := by
      intro leaves
      rw [readDigits_eq_outOfRange_iff.mpr leaves] at read
      contradiction
    refine ⟨inside, ?_⟩
    by_contra clean
    push Not at clean
    obtain ⟨magnitude, spelled⟩ := exists_spells clean
    by_cases fits : InRange (signed negative magnitude)
    · rw [readDigits_eq_ok_iff.mpr ⟨magnitude, spelled, rfl, fits⟩] at read
      contradiction
    · exact inside (spelled.leaves fits)
  · rintro ⟨inside, c, member, other⟩
    cases read : readDigits radix negative 0 digits with
    | ok value =>
      obtain ⟨magnitude, spelled, _⟩ := readDigits_eq_ok_iff.mp read
      obtain ⟨digit, found⟩ := spelled.isDigit c member
      exact absurd (Radix.digit?_eq_some_iff.mp found) (other digit)
    | error cause =>
      cases cause with
      | invalid => rfl
      | outOfRange => exact absurd (readDigits_eq_outOfRange_iff.mp read) inside

/- The same with the empty text, which is not even given to the digits' reader. -/
theorem outcome_eq_outOfRange_iff :
    (if digits = [] then .error .invalid else readDigits radix negative 0 digits) =
      (.error .outOfRange : Except Error Int) ↔ Leaves radix negative digits := by
  split
  · rename_i empty
    simp [empty, not_leaves_nil]
  · exact readDigits_eq_outOfRange_iff

theorem outcome_eq_invalid_iff :
    (if digits = [] then .error .invalid else readDigits radix negative 0 digits) =
      (.error .invalid : Except Error Int) ↔
        ¬ Leaves radix negative digits ∧ Unreadable radix digits := by
  split
  · rename_i empty
    simp [Unreadable, empty, not_leaves_nil]
  · rename_i filled
    simp only [Unreadable, filled, false_or]
    exact readDigits_eq_invalid_iff

end Numeral

namespace Parameter

theorem Flaw.reason_notANumber (radix : Radix) (text : String) :
    (notANumber radix text).reason =
      "`" ++ text ++ ("` isn't a valid " ++ radix.name ++ " number") := by
  change "`" ++ text ++ "` isn't a valid " ++ radix.name ++ " number" = _
  rw [← String.append_assoc, ← String.append_assoc]

theorem literalDigits_bit {c digit : Char} {rest : List Char} (bit : c = '0' ∨ c = '1') :
    literalDigits (c :: rest) = .error digit ↔ literalDigits rest = .error digit := by
  rcases bit with rfl | rfl
  · simp only [literalDigits]
    cases literalDigits rest <;> simp [Except.map]
  · simp only [literalDigits]
    cases literalDigits rest <;> simp [Except.map]

theorem literalDigits_stop {c : Char} {rest : List Char} (other : ¬ (c = '0' ∨ c = '1')) :
    literalDigits (c :: rest) = .error c := by
  obtain ⟨zero, one⟩ := not_or.mp other
  rw [literalDigits]
  · exact zero
  · exact one

theorem literalDigits_eq_error_iff {body : List Char} {digit : Char} :
    literalDigits body = .error digit ↔
      ∃ before after, body = before ++ digit :: after ∧ (∀ c ∈ before, c = '0' ∨ c = '1') ∧
        digit ≠ '0' ∧ digit ≠ '1' := by
  induction body with
  | nil => simp [literalDigits]
  | cons c rest ih =>
    by_cases bit : c = '0' ∨ c = '1'
    · rw [literalDigits_bit bit, ih]
      constructor
      · rintro ⟨before, after, rfl, clean, other⟩
        refine ⟨c :: before, after, rfl, ?_, other⟩
        simpa using ⟨bit, clean⟩
      · rintro ⟨before, after, whole, clean, other⟩
        cases before with
        | nil =>
          cases whole
          simp [other] at bit
        | cons d before =>
          cases whole
          exact ⟨before, after, rfl, fun e member => clean e (by simp [member]), other⟩
    · rw [literalDigits_stop bit]
      constructor
      · rintro ⟨⟩
        exact ⟨[], rest, rfl, by simp, not_or.mp bit⟩
      · rintro ⟨before, after, whole, clean, _⟩
        cases before with
        | nil =>
          cases whole
          rfl
        | cons d before =>
          cases whole
          exact absurd (clean c (by simp)) bit

theorem encodeLiteral_eq_error_iff {body : List Char} {error : Error} :
    encodeLiteral body = .error error ↔
      body = [] ∧ error = .malformed .noDigits ∨
      ∃ before digit after, body = before ++ digit :: after ∧ (∀ c ∈ before, c = '0' ∨ c = '1') ∧
        digit ≠ '0' ∧ digit ≠ '1' ∧ error = .malformed (.badDigit (String.ofList body) digit) := by
  cases body with
  | nil => simp [encodeLiteral, eq_comm]
  | cons first rest =>
    simp only [encodeLiteral, reduceCtorEq, false_and, false_or]
    constructor
    · intro refused
      split at refused
      · contradiction
      · rename_i digit found
        cases refused
        obtain ⟨before, after, whole, clean, zero, one⟩ := literalDigits_eq_error_iff.mp found
        exact ⟨before, digit, after, whole, clean, zero, one, rfl⟩
    · rintro ⟨before, digit, after, whole, clean, zero, one, rfl⟩
      rw [literalDigits_eq_error_iff.mpr ⟨before, after, whole, clean, zero, one⟩]

theorem encodeNumber_eq_error_iff {radix : Radix} {numeral text : List Char} {error : Error} :
    encodeNumber radix numeral text = .error error ↔
      Numeral.read radix numeral = .error .outOfRange ∧
        error = .malformed (.outOfRange radix (String.ofList text)) ∨
      Numeral.read radix numeral = .error .invalid ∧
        error = .malformed (.notANumber radix (String.ofList text)) := by
  unfold encodeNumber
  cases Numeral.read radix numeral with
  | ok value => simp
  | error cause => cases cause <;> simp [eq_comm]

theorem encodeTrimmed_eq_error_iff {text digits : List Char} {radix : Radix} {negative : Bool}
    (parts : Numeral.Parts text radix negative digits) (filled : text ≠ [])
    (number : ¬ ['0', 'b'] <+: text) {error : Error} :
    encodeTrimmed text = .error error ↔
      Numeral.Leaves radix negative digits ∧
        error = .malformed (.outOfRange radix (String.ofList text)) ∨
      (¬ Numeral.Leaves radix negative digits ∧ Numeral.Unreadable radix digits) ∧
        error = .malformed (.notANumber radix (String.ofList text)) := by
  obtain ⟨numeral, same, read⟩ := encodeTrimmed_parts parts filled number
  rw [same, encodeNumber_eq_error_iff, read, Numeral.outcome_eq_outOfRange_iff,
    Numeral.outcome_eq_invalid_iff]

end Parameter

/-- Which parameters are rejected, and for what. The text is trimmed first. Nothing is left of a missing
one; a `0b` literal has no digits, or has a leftmost character that is none; and a number leaves the
range with some of its leading digits, or does not and has no digits or a character that is none. -/
theorem rejected_for_first_flaw (text : String) :
    let trimmed := Text.trimmed text.toList
    Text.Trims text.toList trimmed ∧
    (Parameter.encode text = .error .missing ↔ trimmed = []) ∧
    (∀ body error, trimmed = '0' :: 'b' :: body → (Parameter.encode text = .error error ↔
      body = [] ∧ error = .malformed .noDigits ∨
      ∃ before digit after, body = before ++ digit :: after ∧ (∀ c ∈ before, c = '0' ∨ c = '1') ∧
        digit ≠ '0' ∧ digit ≠ '1' ∧ error = .malformed (.badDigit (String.ofList body) digit))) ∧
    (∃ radix negative digits, Numeral.Parts trimmed radix negative digits) ∧
    (∀ radix negative digits error, Numeral.Parts trimmed radix negative digits → trimmed ≠ [] →
      ¬ ['0', 'b'] <+: trimmed → (Parameter.encode text = .error error ↔
        Numeral.Leaves radix negative digits ∧
          error = .malformed (.outOfRange radix (String.ofList trimmed)) ∨
        (¬ Numeral.Leaves radix negative digits ∧ Numeral.Unreadable radix digits) ∧
          error = .malformed (.notANumber radix (String.ofList trimmed)))) ∧
    Parameter.Flaw.noDigits.reason = "binary literal `0b` has no digits" ∧
    (∀ body digit, (Parameter.Flaw.badDigit body digit).reason =
      "binary literal `0b" ++ body ++ "` contains `" ++ digit.toString ++ "`") ∧
    (∀ text, (Parameter.Flaw.outOfRange .decimal text).reason =
      "decimal number `" ++ text ++ "` doesn't fit in 32 bits") ∧
    (∀ text, (Parameter.Flaw.outOfRange .hexadecimal text).reason =
      "hexadecimal number `" ++ text ++ "` doesn't fit in 32 bits") ∧
    (∀ text, (Parameter.Flaw.notANumber .decimal text).reason =
      "`" ++ text ++ "` isn't a valid decimal number") ∧
    ∀ text, (Parameter.Flaw.notANumber .hexadecimal text).reason =
      "`" ++ text ++ "` isn't a valid hexadecimal number" := by
  intro trimmed
  refine ⟨Text.trims_trimmed _, ?_, ?_, Numeral.exists_parts trimmed, ?_, rfl, fun _ _ => rfl,
    fun _ => rfl, fun _ => rfl, Parameter.Flaw.reason_notANumber .decimal,
    Parameter.Flaw.reason_notANumber .hexadecimal⟩
  · rw [Parameter.encode_eq_missing_iff, Text.trim_eq_empty_iff_trimmed]
  · intro body error literal
    have opened : Parameter.encode text = Parameter.encodeLiteral body := by
      rw [Parameter.encode, show Text.trimmed text.toList = _ from literal]
      rfl
    rw [opened, Parameter.encodeLiteral_eq_error_iff]
  · intro radix negative digits error parts filled number
    exact Parameter.encodeTrimmed_eq_error_iff parts filled number

-- One digit more and the range is left before the `x` is met.
example : Parameter.encode "214748364x" = .error (.malformed (.notANumber .decimal "214748364x")) ∧
    Parameter.encode "2147483648x" = .error (.malformed (.outOfRange .decimal "2147483648x")) := by
  decide

end WhitespaceAsm
