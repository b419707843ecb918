import WhitespaceAsm.Text
import WhitespaceAsm.Token

/-! Texts and their bytes determine each other, and a token is one byte. Positions in a line are
counted in bytes, so the width of characters is tied to the length of their bytes here. -/
namespace WhitespaceAsm

namespace Text

@[simp] theorem encoded_append (a b : List Char) : encoded (a ++ b) = encoded a ++ encoded b := by
  simp [encoded]

@[simp] theorem bytes_append (a b : String) : bytes (a ++ b) = bytes a ++ bytes b := by
  simp [bytes]

@[simp] theorem bytes_ofList (cs : List Char) : bytes (String.ofList cs) = encoded cs := by
  simp [bytes]

@[simp] theorem width_nil : width [] = 0 := rfl

@[simp] theorem width_cons (c : Char) (cs : List Char) : width (c :: cs) = c.utf8Size + width cs := rfl

@[simp] theorem width_append (a b : List Char) : width (a ++ b) = width a + width b := by
  induction a with
  | nil => simp
  | cons c a ih => simp [ih, Nat.add_assoc]

theorem eq_nil_of_width {cs : List Char} (none : width cs = 0) : cs = [] := by
  cases cs with
  | nil => rfl
  | cons c cs =>
    have size := c.utf8Size_pos
    rw [width_cons] at none
    omega

theorem length_encoded (cs : List Char) : (encoded cs).length = width cs := by
  induction cs with
  | nil => rfl
  | cons c cs ih =>
    have step : encoded (c :: cs) = String.utf8EncodeChar c ++ encoded cs := rfl
    rw [step, List.length_append, String.length_utf8EncodeChar, ih, width_cons]

/- A byte below 128 stands for itself wherever it is found. -/
theorem toNat_of_mem_encodeChar {byte : UInt8} {c : Char} (small : byte.toNat < 128)
    (member : byte ∈ String.utf8EncodeChar c) : c.toNat = byte.toNat := by
  have value : c.toNat = c.val.toNat := rfl
  unfold String.utf8EncodeChar at member
  dsimp only at member
  split at member
  · rw [List.mem_singleton.mp member, UInt8.toNat_ofNat']
    omega
  · have high : 128 ≤ byte.toNat := by
      split at member
      · simp only [List.mem_cons, List.not_mem_nil, or_false] at member
        rcases member with rfl | rfl
        all_goals
          rw [UInt8.toNat_ofNat']
          omega
      · split at member
        all_goals
          simp only [List.mem_cons, List.not_mem_nil, or_false] at member
        · rcases member with rfl | rfl | rfl
          all_goals
            rw [UInt8.toNat_ofNat']
            omega
        · rcases member with rfl | rfl | rfl | rfl
          all_goals
            rw [UInt8.toNat_ofNat']
            omega
    omega

theorem mem_of_mem_encoded {byte : UInt8} {cs : List Char} (small : byte.toNat < 128)
    (member : byte ∈ encoded cs) : Char.ofNat byte.toNat ∈ cs := by
  obtain ⟨c, found, inside⟩ := List.mem_flatMap.mp member
  rw [← toNat_of_mem_encodeChar small inside, Char.ofNat_toNat]
  exact found

theorem toByteArray_bytes (text : String) : (bytes text).toByteArray = text.toByteArray :=
  String.utf8Encode_toList

theorem ofBytes?_eq_some_iff {content : Bytes} {text : String} :
    ofBytes? content = some text ↔ bytes text = content := by
  unfold ofBytes? String.fromUTF8?
  constructor
  · intro h
    split at h
    · have same : text.toByteArray = content.toByteArray := by
        rw [← Option.some.inj h]
        rfl
      rw [← toByteArray_bytes] at same
      simpa using congrArg (fun array => array.data.toList) same
    · contradiction
  · intro h
    subst h
    rw [toByteArray_bytes, dif_pos text.isValidUTF8]
    rfl

end Text

namespace Token

def byte : Token → UInt8
  | space => 32
  | tab => 9
  | lineFeed => 10

def ofByte? (byte : UInt8) : Option Token :=
  [space, tab, lineFeed].find? fun token => token.byte == byte

def bytes (tokens : List Token) : Bytes := tokens.map byte

@[simp] theorem bytes_append (a b : List Token) : bytes (a ++ b) = bytes a ++ bytes b := by
  simp [bytes]

@[simp] theorem text_append (a b : List Token) : text (a ++ b) = text a ++ text b := by
  simp [text]

theorem bytes_text (tokens : List Token) : Text.bytes (text tokens) = bytes tokens := by
  have char_byte : ∀ token : Token, String.utf8EncodeChar token.char = [token.byte] := by
    intro token
    cases token <;> decide
  induction tokens with
  | nil => rfl
  | cons token rest ih =>
    simp only [text, Text.bytes_ofList, Text.encoded, bytes, List.map_cons, List.flatMap_cons] at ih ⊢
    rw [char_byte, ih]
    rfl

@[simp] theorem ofByte?_byte (token : Token) : ofByte? token.byte = some token := by
  cases token <;> decide

theorem byte_ofByte? {byte : UInt8} {token : Token} (h : ofByte? byte = some token) :
    token.byte = byte := by
  simpa using List.find?_some h

def ofBytes? (content : Bytes) : Option (List Token) := content.mapM ofByte?

theorem ofBytes?_eq_some_iff {content : Bytes} {tokens : List Token} :
    ofBytes? content = some tokens ↔ bytes tokens = content := by
  induction content generalizing tokens with
  | nil => simp [ofBytes?, bytes, eq_comm]
  | cons byte rest ih =>
    simp only [ofBytes?] at ih
    simp only [ofBytes?, List.mapM_cons, Option.bind_eq_bind, Option.bind_eq_some_iff, ih]
    constructor
    · rintro ⟨token, read, later, same, eq⟩
      cases eq
      simp only [bytes, List.map_cons, byte_ofByte? read] at same ⊢
      rw [same]
    · intro same
      cases tokens with
      | nil => simp [bytes] at same
      | cons token later =>
        simp only [bytes, List.map_cons, List.cons.injEq] at same
        exact ⟨token, by rw [← same.1, ofByte?_byte], later, same.2, rfl⟩

end Token

end WhitespaceAsm
