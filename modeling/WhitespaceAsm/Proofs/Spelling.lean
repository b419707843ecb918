import WhitespaceAsm.Proofs.Trimming
import WhitespaceAsm.Pseudo

/-! Texts that spell a run of digits. A `0b` literal spells any digits there are, and the decimal
text of a number spells its sign and its binary digits, as long as the number is in range. Either
text comes out of trimming and reading as it went in. -/
namespace WhitespaceAsm

theorem binaryDigits_concat {m d : Nat} (small : d < 2) (positive : 0 < m) :
    binaryDigits (2 * m + d) = binaryDigits m ++ [d == 1] := by
  have large : ¬ 2 * m + d < 2 := by omega
  have half : (2 * m + d) / 2 = m := by omega
  have rest : (2 * m + d) % 2 = d := by omega
  rw [binaryDigits, if_neg large, half, rest]

def digitChars (digits : List Bool) : List Char := digits.map fun digit => if digit then '1' else '0'

theorem digitChars_binaryDigits (n : Nat) : digitChars (binaryDigits n) = Nat.toDigits 2 n := by
  have bit : ∀ d < 2, digitChars [d == 1] = [Nat.digitChar d] := by decide
  induction n using Nat.base_induction 2 (by decide) with
  | single d small => rw [binaryDigits, if_pos small, Nat.toDigits_of_lt_base small, bit d small]
  | digit m d small positive ih =>
    rw [binaryDigits_concat small positive, ← Nat.toDigits_append_toDigits (by decide) positive small,
      Nat.toDigits_of_lt_base small, ← bit d small, ← ih]
    exact List.map_append

theorem binaryDigits_eq_toDigits (n : Nat) : binaryDigits n = (Nat.toDigits 2 n).map (· == '1') := by
  have back : ∀ digit : Bool, ((if digit then '1' else '0') == '1') = digit := by decide
  rw [← digitChars_binaryDigits, digitChars, List.map_map]
  exact (List.map_id'' back _).symm

theorem binaryDigits_ne_nil (n : Nat) : binaryDigits n ≠ [] := by
  simp [binaryDigits_eq_toDigits]

theorem head_binaryDigits (n : Nat) : (binaryDigits n).head? = some (decide (0 < n)) := by
  induction n using Nat.base_induction 2 (by decide) with
  | single d small =>
    have bit : ∀ d < 2, some (d == 1) = some (decide (0 < d)) := by decide
    rw [binaryDigits, if_pos small, List.head?_cons, bit d small]
  | digit m d small positive ih =>
    have larger : 0 < 2 * m + d := by omega
    rw [binaryDigits_concat small positive, List.head?_append, ih]
    simp [positive, larger]

def ofBits (digits : List Bool) : Nat := digits.foldl (fun n digit => 2 * n + digit.toNat) 0

theorem ofBits_concat (digits : List Bool) (digit : Bool) :
    ofBits (digits ++ [digit]) = 2 * ofBits digits + digit.toNat := by
  simp [ofBits]

theorem ofBits_binaryDigits (n : Nat) : ofBits (binaryDigits n) = n := by
  have bit : ∀ d < 2, (d == 1).toNat = d := by decide
  induction n using Nat.base_induction 2 (by decide) with
  | single d small =>
    have alone : ofBits [d == 1] = (d == 1).toNat := by simp [ofBits]
    rw [binaryDigits, if_pos small, alone, bit d small]
  | digit m d small positive ih =>
    rw [binaryDigits_concat small positive, ofBits_concat, ih, bit d small]

theorem binaryDigits_injective {m n : Nat} (same : binaryDigits m = binaryDigits n) : m = n := by
  rw [← ofBits_binaryDigits m, same, ofBits_binaryDigits]

theorem mem_literal {c : Char} {digits : List Bool} (member : c ∈ '0' :: 'b' :: digitChars digits) :
    c ∈ ['0', '1', 'b'] := by
  simp only [digitChars, List.mem_cons, List.mem_map] at member
  rcases member with rfl | rfl | ⟨digit, _, rfl⟩
  · decide
  · decide
  · cases digit <;> decide

namespace Numeral

def signed (negative : Bool) (magnitude : Nat) : Int := if negative then -magnitude else magnitude

theorem push_signed (radix : Radix) (negative : Bool) (magnitude digit : Nat) :
    push radix negative (signed negative magnitude) digit =
      signed negative (radix.base * magnitude + digit) := by
  unfold push signed
  rw [Int.natCast_add, Int.natCast_mul, Int.mul_comm]
  cases negative
  · rfl
  · simp only [if_true]
    rw [Int.mul_neg, Int.neg_add]

theorem signed_zero (negative : Bool) : signed negative 0 = 0 := by
  cases negative <;> rfl

theorem le_base_mul (radix : Radix) (magnitude digit : Nat) :
    magnitude ≤ radix.base * magnitude + digit := by
  have base : 0 < radix.base := by cases radix <;> decide
  have := Nat.le_mul_of_pos_left magnitude base
  omega

theorem inRange_of_le {negative : Bool} {small large : Nat} (le : small ≤ large)
    (inside : InRange (signed negative large)) : InRange (signed negative small) := by
  unfold InRange signed at *
  cases negative
  · simp only [Bool.false_eq_true, if_false] at *
    omega
  · simp only [if_true] at *
    omega

theorem digit?_digitChar (radix : Radix) {digit : Nat} (small : digit < radix.base) :
    radix.digit? digit.digitChar = some digit := by
  cases radix with
  | decimal =>
    have all : ∀ d < 10, Radix.decimal.digit? (Nat.digitChar d) = some d := by decide
    exact all digit small
  | hexadecimal =>
    have all : ∀ d < 16, Radix.hexadecimal.digit? (Nat.digitChar d) = some d := by decide
    exact all digit small

theorem readDigits_append (radix : Radix) (negative : Bool) (value : Int) (first second : List Char) :
    readDigits radix negative value (first ++ second) =
      (readDigits radix negative value first).bind fun reached =>
        readDigits radix negative reached second := by
  induction first generalizing value with
  | nil => rfl
  | cons c first ih =>
    simp only [List.cons_append, readDigits]
    split
    · rfl
    · split
      · exact ih _
      · rfl

theorem readDigits_toDigits (radix : Radix) (negative : Bool) (magnitude : Nat)
    (inside : InRange (signed negative magnitude)) :
    readDigits radix negative 0 (Nat.toDigits radix.base magnitude) =
      .ok (signed negative magnitude) := by
  have base : 1 < radix.base := by cases radix <;> decide
  have last : ∀ before digit : Nat, digit < radix.base →
      InRange (signed negative (radix.base * before + digit)) →
      readDigits radix negative (signed negative before) [digit.digitChar] =
        .ok (signed negative (radix.base * before + digit)) := by
    intro before digit small inside
    simp [readDigits, digit?_digitChar radix small, push_signed, inside]
  induction magnitude using Nat.base_induction radix.base base with
  | single digit small =>
    have read := last 0 digit small (by simpa using inside)
    rw [signed_zero, Nat.mul_zero, Nat.zero_add] at read
    rw [Nat.toDigits_of_lt_base small, read]
  | digit before digit small positive ih =>
    -- The numbers on the way are closer to zero than the one that is reached.
    have closer := inRange_of_le (le_base_mul radix before digit) inside
    rw [← Nat.toDigits_append_toDigits base positive small, readDigits_append, ih closer,
      Nat.toDigits_of_lt_base small]
    exact last before digit small inside

theorem splitSign_digits {cs : List Char} (digits : ∀ c ∈ cs, c.isDigit = true) :
    splitSign cs = (false, cs) := by
  unfold splitSign
  split
  · exact absurd (digits '+' (by simp)) (by decide)
  · exact absurd (digits '-' (by simp)) (by decide)
  · rfl

theorem read_unsigned (radix : Radix) {cs : List Char} (some : cs ≠ [])
    (digits : ∀ c ∈ cs, c.isDigit = true) : read radix cs = readDigits radix false 0 cs := by
  rw [read, splitSign_digits digits]
  cases cs with
  | nil => exact absurd rfl some
  | cons c rest => rfl

end Numeral

namespace Parameter

theorem literalDigits_digitChars (digits : List Bool) :
    literalDigits (digitChars digits) = .ok digits := by
  induction digits with
  | nil => rfl
  | cons digit digits ih =>
    cases digit
    · change (literalDigits (digitChars digits)).map _ = _
      rw [ih]
      rfl
    · change (literalDigits (digitChars digits)).map _ = _
      rw [ih]
      rfl

theorem literalDigits_eq_ok_iff {body : List Char} {digits : List Bool} :
    literalDigits body = .ok digits ↔ body = digitChars digits := by
  constructor
  · intro read
    fun_induction literalDigits body generalizing digits with
    | case1 =>
      cases read
      rfl
    | case2 rest ih | case3 rest ih =>
      cases later : literalDigits rest with
      | error c => simp [later, Except.map] at read
      | ok tail =>
        simp only [later, Except.map, Except.ok.injEq] at read
        subst read
        rw [ih later]
        rfl
    | case4 => contradiction
  · rintro rfl
    exact literalDigits_digitChars digits

theorem encodeLiteral_eq_ok_iff {body : List Char} {tokens : List Token} :
    encodeLiteral body = .ok tokens ↔
      ∃ digits, digits ≠ [] ∧ body = digitChars digits ∧ tokens = run digits := by
  unfold encodeLiteral
  constructor
  · intro encoded
    split at encoded
    · contradiction
    · split at encoded
      · rename_i digits read
        cases encoded
        have spelled := literalDigits_eq_ok_iff.mp read
        refine ⟨digits, ?_, spelled, rfl⟩
        rintro rfl
        contradiction
      · contradiction
  · rintro ⟨digits, filled, rfl, rfl⟩
    split
    · rename_i empty
      exact absurd (List.map_eq_nil_iff.mp empty) filled
    · rw [literalDigits_digitChars]

theorem encode_literal {digits : List Bool} (some : digits ≠ []) :
    encode (String.ofList ('0' :: 'b' :: digitChars digits)) = .ok (run digits) := by
  have inked : ∀ c ∈ '0' :: 'b' :: digitChars digits, c.toNat ∉ Text.whiteSpace := by
    intro c member
    have ink : ∀ d ∈ ['0', '1', 'b'], d.toNat ∉ Text.whiteSpace := by simp [Text.whiteSpace]
    exact ink c (mem_literal member)
  rw [encode, String.toList_ofList, Text.trimmed_eq_self inked, encodeTrimmed]
  exact encodeLiteral_eq_ok_iff.mpr ⟨digits, some, rfl, rfl⟩

theorem encodeTrimmed_digits {text : List Char} (some : text ≠ [])
    (digits : ∀ c ∈ text, c.isDigit = true) :
    encodeTrimmed text = encodeNumber .decimal text text := by
  unfold encodeTrimmed
  split
  · exact absurd rfl some
  · exact absurd (digits 'b' (by simp)) (by decide)
  · exact absurd (digits 'x' (by simp)) (by decide)
  · rfl

theorem encode_decimal {n : Nat} (inside : Numeral.InRange n) :
    encode (toString n) = .ok (run (false :: binaryDigits n)) := by
  have digits : ∀ c ∈ Nat.toDigits 10 n, c.isDigit = true := by
    intro c member
    exact Nat.isDigit_of_mem_toDigits (by decide) (by decide) member
  have read : Numeral.read .decimal (Nat.toDigits 10 n) = .ok (n : Int) := by
    rw [Numeral.read_unsigned .decimal Nat.toDigits_ne_nil digits]
    exact Numeral.readDigits_toDigits .decimal false n inside
  have inked : ∀ c ∈ Nat.toDigits 10 n, c.toNat ∉ Text.whiteSpace := by
    intro c member
    exact Text.not_mem_whiteSpace_digit (digits c member)
  rw [encode, Nat.toString_eq_repr, Nat.toList_repr, Text.trimmed_eq_self inked,
    encodeTrimmed_digits Nat.toDigits_ne_nil digits, encodeNumber, read]
  have plus : ¬ (n : Int) < 0 := by omega
  simp [signedDigits, plus]

theorem encodeLiteral_ne_missing (body : List Char) : encodeLiteral body ≠ .error .missing := by
  unfold encodeLiteral
  split
  · simp
  · split <;> simp

theorem encodeNumber_ne_missing (radix : Radix) (digits text : List Char) :
    encodeNumber radix digits text ≠ .error .missing := by
  unfold encodeNumber
  split <;> simp

theorem encode_eq_missing_iff {text : String} :
    encode text = .error .missing ↔ Text.trim text = "" := by
  rw [Text.trim_eq_empty_iff_trimmed, encode]
  constructor
  · intro failed
    unfold encodeTrimmed at failed
    split at failed
    · assumption
    · exact absurd failed (encodeLiteral_ne_missing _)
    · exact absurd failed (encodeNumber_ne_missing _ _ _)
    · exact absurd failed (encodeNumber_ne_missing _ _ _)
  · intro blank
    rw [blank]
    rfl

end Parameter

namespace Label

theorem digits_ne_nil {name : List Char} (some : name ≠ []) : digits name ≠ [] := by
  obtain ⟨c, rest, rfl⟩ := List.exists_cons_of_ne_nil some
  simp [digits, binaryDigits_ne_nil]

theorem digits_eq_toDigits (name : List Char) :
    digits name = (name.flatMap fun c => Nat.toDigits 2 c.toNat).map (· == '1') := by
  simp [digits, binaryDigits_eq_toDigits, List.map_flatMap]

theorem literal_eq (name : String) :
    literal name = String.ofList ('0' :: 'b' :: digitChars (digits name.toList)) := by
  rw [literal, digitChars]
  apply String.toList_inj.mp
  simp

theorem encode_literal {name : String} (some : name.toList ≠ []) :
    Parameter.encode (literal name) = .ok (Parameter.run (digits name.toList)) := by
  rw [literal_eq, Parameter.encode_literal (digits_ne_nil some)]

end Label

end WhitespaceAsm
