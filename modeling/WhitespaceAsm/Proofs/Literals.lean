import WhitespaceAsm.Proofs.Emission
import WhitespaceAsm.Proofs.Labels
import WhitespaceAsm.Proofs.Numbers

/-! Literals beside numbers. Either kind of parameter becomes a run of digits. A literal may spell any
run there is, of any length, and nothing is lost of what it spells; the run of a number in range is
that of a literal too, which spells out the sign and the magnitude. -/
namespace WhitespaceAsm

theorem Text.trimmed_toString (value : Int) :
    trimmed (toString value).toList = (toString value).toList := by
  have digits : ∀ n, ∀ c ∈ Nat.toDigits 10 n, c.toNat ∉ whiteSpace := by
    intro n c member
    exact not_mem_whiteSpace_digit (Nat.isDigit_of_mem_toDigits (by decide) (by decide) member)
  apply trimmed_eq_self
  cases value with
  | ofNat n =>
    have text : (toString (Int.ofNat n)).toList = Nat.toDigits 10 n := Nat.toList_repr
    rw [text]
    exact digits n
  | negSucc n =>
    have text : (toString (Int.negSucc n)).toList = '-' :: Nat.toDigits 10 (n + 1) := by
      change ("-" ++ Nat.repr (n + 1)).toList = _
      simp
    rw [text]
    exact List.forall_mem_cons.mpr ⟨by decide, digits (n + 1)⟩

namespace Numeral

def literal (value : Int) : String :=
  "0b" ++ (if value < 0 then "1" else "0") ++ String.ofList (Nat.toDigits 2 value.natAbs)

theorem literal_eq (value : Int) :
    literal value = String.ofList ('0' :: 'b' :: digitChars (Parameter.signedDigits value)) := by
  have spelled : digitChars (Parameter.signedDigits value) =
      (if value < 0 then '1' else '0') :: Nat.toDigits 2 value.natAbs := by
    rw [← digitChars_binaryDigits]
    simp [Parameter.signedDigits, digitChars]
  apply String.toList_inj.mp
  rw [literal, spelled]
  split <;> simp

end Numeral

namespace Parameter

theorem encode_of_literal {text : String} {body : List Char}
    (literal : Text.trimmed text.toList = '0' :: 'b' :: body) : encode text = encodeLiteral body := by
  rw [encode, literal]
  rfl

theorem encode_toString {value : Int} (inside : Numeral.InRange value) :
    encode (toString value) = .ok (number value) := by
  have denoted : Numeral.Denotes (Text.trimmed (toString value).toList) value := by
    rw [Text.trimmed_toString]
    exact Numeral.denotes_toString value
  exact (encode_number_iff.mpr ⟨value, denoted, inside, rfl⟩).1

theorem encode_numeral_literal (value : Int) :
    encode (Numeral.literal value) = .ok (number value) := by
  rw [Numeral.literal_eq, encode_literal (by simp [signedDigits]), run_signedDigits]

theorem exists_run_iff {tokens : List Token} :
    (∃ digits, digits ≠ [] ∧ tokens = run digits) ↔
      ∃ body, body ≠ [] ∧ (∀ token ∈ body, token = .space ∨ token = .tab) ∧
        tokens = body ++ [.lineFeed] := by
  constructor
  · rintro ⟨digits, filled, rfl⟩
    refine ⟨digits.map Token.ofBit, by simpa using filled, ?_, rfl⟩
    intro token member
    obtain ⟨digit, _, rfl⟩ := List.mem_map.mp member
    cases digit
    · exact .inl rfl
    · exact .inr rfl
  · rintro ⟨body, filled, blank, rfl⟩
    have back : ∀ token ∈ body, Token.ofBit (token == .tab) = token := by
      intro token member
      rcases blank token member with rfl | rfl
      · rfl
      · rfl
    have whole : (body.map (· == .tab)).map Token.ofBit = body := by
      rw [List.map_map]
      exact (List.map_congr_left back).trans (List.map_id' body)
    exact ⟨body.map (· == .tab), by simpa using filled, by rw [run, whole]⟩

end Parameter

/-- Numbers and literals come to the same kind of tokens. A number in range is encoded like the literal
of its sign and its magnitude; what can come out at all is a run of at least one space or tab with its
line feed, and any such run does come out; and literals come to the same tokens just when they have the
same digits, zeros in front included. -/
theorem literals_encoded_like_numbers :
    (∀ value : Int, -2147483648 ≤ value → value ≤ 2147483647 →
      Parameter.encode (toString value) = .ok (Parameter.number value) ∧
      Parameter.encode (toString value) = Parameter.encode (Numeral.literal value)) ∧
    (∀ tokens, (∃ text, Parameter.encode text = .ok tokens) ↔
      ∃ body, body ≠ [] ∧ (∀ token ∈ body, token = .space ∨ token = .tab) ∧
        tokens = body ++ [.lineFeed]) ∧
    ∀ a b x y one two, Text.trimmed a.toList = '0' :: 'b' :: x →
      Text.trimmed b.toList = '0' :: 'b' :: y → Parameter.encode a = .ok one →
        Parameter.encode b = .ok two → (one = two ↔ x = y) := by
  refine ⟨?_, ?_, ?_⟩
  · intro value least most
    have encoded := Parameter.encode_toString ⟨least, most⟩
    exact ⟨encoded, encoded.trans (Parameter.encode_numeral_literal value).symm⟩
  · intro tokens
    rw [← Parameter.exists_run_iff]
    constructor
    · rintro ⟨text, encoded⟩
      exact Parameter.encode_run encoded
    · rintro ⟨digits, filled, rfl⟩
      exact ⟨_, Parameter.encode_literal filled⟩
  · intro a b x y one two first second encoded also
    rw [Parameter.encode_of_literal first] at encoded
    rw [Parameter.encode_of_literal second] at also
    obtain ⟨digits, _, rfl, rfl⟩ := Parameter.encodeLiteral_eq_ok_iff.mp encoded
    obtain ⟨others, _, rfl, rfl⟩ := Parameter.encodeLiteral_eq_ok_iff.mp also
    constructor
    · intro same
      rw [Parameter.run_injective same]
    · intro same
      rw [digitChars_injective same]

-- A zero after the sign is part of what a literal spells.
example : Parameter.encode " 0b0101" = Parameter.encode "5" ∧
    Parameter.encode "0b00101" = .ok [.space, .space, .tab, .space, .tab, .lineFeed] := by
  cbv

end WhitespaceAsm
