import WhitespaceAsm.Opcode
import WhitespaceAsm.Parameter
import WhitespaceAsm.Proofs.Bytes

/-! Programs as sequences of units. A unit is the code of an instruction, followed by a run of digits
exactly when the instruction takes a parameter. Codes are no starts of one another and a run ends at
its line feed, so units are read from left to right without looking ahead, and a program is the
concatenation of at most one sequence of units. -/
namespace WhitespaceAsm

namespace Opcode

theorem mem_all (opcode : Opcode) : opcode ∈ all := by
  cases opcode <;> decide

theorem code_ne_nil (opcode : Opcode) : opcode.code ≠ [] := by
  cases opcode <;> decide

theorem code_prefix_free : ∀ a ∈ all, ∀ b ∈ all, a.code <+: b.code → a = b := by decide

theorem eq_of_codes_start {a b : Opcode} {tokens : List Token} (first : a.code <+: tokens)
    (second : b.code <+: tokens) : a = b := by
  rcases List.prefix_or_prefix_of_prefix first second with h | h
  · exact code_prefix_free a (mem_all a) b (mem_all b) h
  · exact (code_prefix_free b (mem_all b) a (mem_all a) h).symm

def startOf? (tokens : List Token) : Option Opcode :=
  all.find? fun opcode => opcode.code.isPrefixOf tokens

theorem startOf?_eq_some_iff {tokens : List Token} {opcode : Opcode} :
    startOf? tokens = some opcode ↔ opcode.code <+: tokens := by
  have sound : ∀ found, startOf? tokens = some found → found.code <+: tokens := by
    intro found h
    simpa using List.find?_some h
  constructor
  · exact sound opcode
  · intro starts
    cases h : startOf? tokens with
    | none =>
      have missed := List.find?_eq_none.mp h opcode (mem_all opcode)
      exact absurd (List.isPrefixOf_iff_prefix.mpr starts) missed
    | some found => rw [eq_of_codes_start (sound found h) starts]

end Opcode

namespace Parameter

def readRun : List Token → Option (List Bool × List Token)
  | [] => none
  | .lineFeed :: rest => some ([], rest)
  | .space :: rest => (readRun rest).map fun (digits, later) => (false :: digits, later)
  | .tab :: rest => (readRun rest).map fun (digits, later) => (true :: digits, later)

theorem readRun_run (digits : List Bool) (rest : List Token) :
    readRun (run digits ++ rest) = some (digits, rest) := by
  induction digits with
  | nil => rfl
  | cons digit digits ih =>
    have step : run (digit :: digits) ++ rest = Token.ofBit digit :: (run digits ++ rest) := rfl
    rw [step]
    cases digit <;> simp [Token.ofBit, readRun, ih]

theorem run_of_readRun {tokens rest : List Token} {digits : List Bool}
    (read : readRun tokens = some (digits, rest)) : tokens = run digits ++ rest := by
  induction tokens generalizing digits with
  | nil => simp [readRun] at read
  | cons token tokens ih =>
    cases token with
    | lineFeed =>
      cases read
      rfl
    | space =>
      simp only [readRun, Option.map_eq_some_iff, Prod.mk.injEq] at read
      obtain ⟨⟨later, _⟩, read, rfl, rfl⟩ := read
      rw [ih read]
      rfl
    | tab =>
      simp only [readRun, Option.map_eq_some_iff, Prod.mk.injEq] at read
      obtain ⟨⟨later, _⟩, read, rfl, rfl⟩ := read
      rw [ih read]
      rfl

end Parameter

/-- An instruction of a program with the digits of its parameter. There are digits exactly where a
parameter is taken. -/
structure CodeUnit where
  opcode : Opcode
  digits : List Bool
  digits_iff : digits ≠ [] ↔ opcode.takesParameter = true
  deriving DecidableEq, Repr

namespace CodeUnit

def parameter (unit : CodeUnit) : List Token :=
  if unit.opcode.takesParameter then Parameter.run unit.digits else []

def tokens (unit : CodeUnit) : List Token := unit.opcode.code ++ unit.parameter

def allTokens (units : List CodeUnit) : List Token := units.flatMap tokens

def text (units : List CodeUnit) : String := Token.text (allTokens units)

def program (units : List CodeUnit) : Bytes := Token.bytes (allTokens units)

/-- The mnemonic and the parameter's digits, which is all that there is to a unit. -/
def parts (unit : CodeUnit) : String × List Bool := (unit.opcode.mnemonic, unit.digits)

@[simp] theorem allTokens_append (a b : List CodeUnit) :
    allTokens (a ++ b) = allTokens a ++ allTokens b := by
  simp [allTokens]

@[simp] theorem text_append (a b : List CodeUnit) : text (a ++ b) = text a ++ text b := by
  simp [text]

theorem text_singleton (unit : CodeUnit) :
    text [unit] = Token.text unit.opcode.code ++ Token.text unit.parameter := by
  simp [text, allTokens, tokens]

@[simp] theorem text_nil : text [] = "" := rfl

theorem bytes_text (units : List CodeUnit) : Text.bytes (text units) = program units :=
  Token.bytes_text _

@[simp] theorem program_append (a b : List CodeUnit) : program (a ++ b) = program a ++ program b := by
  simp [program]

theorem code_starts (unit : CodeUnit) (rest : List Token) :
    unit.opcode.code <+: unit.tokens ++ rest := by
  rw [tokens, List.append_assoc]
  exact List.prefix_append _ _

def afterCode? (opcode : Opcode) (tokens : List Token) : Option (CodeUnit × List Token) :=
  if takes : opcode.takesParameter then
    match Parameter.readRun tokens with
    | some (digit :: digits, rest) => some (⟨opcode, digit :: digits, by simp [takes]⟩, rest)
    | _ => none
  else some (⟨opcode, [], by simp [takes]⟩, tokens)

def read? (tokens : List Token) : Option (CodeUnit × List Token) :=
  (Opcode.startOf? tokens).bind fun opcode => afterCode? opcode (tokens.drop opcode.code.length)

theorem digits_eq_nil (unit : CodeUnit) (bare : ¬ unit.opcode.takesParameter = true) :
    unit.digits = [] :=
  Decidable.not_not.mp fun some => bare (unit.digits_iff.mp some)

theorem afterCode?_parameter (unit : CodeUnit) (rest : List Token) :
    afterCode? unit.opcode (unit.parameter ++ rest) = some (unit, rest) := by
  unfold afterCode? parameter
  by_cases takes : unit.opcode.takesParameter = true
  · rw [dif_pos takes, if_pos takes, Parameter.readRun_run]
    obtain ⟨opcode, digits, digits_iff⟩ := unit
    cases digits with
    | nil => exact absurd rfl (digits_iff.mpr takes)
    | cons digit digits => rfl
  · rw [dif_neg takes, if_neg takes]
    have bare := unit.digits_eq_nil takes
    obtain ⟨opcode, digits, digits_iff⟩ := unit
    cases bare
    rfl

theorem parameter_of_afterCode? {opcode : Opcode} {tokens rest : List Token} {unit : CodeUnit}
    (read : afterCode? opcode tokens = some (unit, rest)) :
    unit.opcode = opcode ∧ tokens = unit.parameter ++ rest := by
  unfold afterCode? at read
  split at read
  · rename_i takes
    split at read
    · rename_i digit digits later run
      cases read
      exact ⟨rfl, by rw [parameter, if_pos takes, Parameter.run_of_readRun run]⟩
    · contradiction
  · rename_i bare
    cases read
    exact ⟨rfl, by rw [parameter, if_neg bare]; rfl⟩

theorem read?_tokens (unit : CodeUnit) (rest : List Token) :
    read? (unit.tokens ++ rest) = some (unit, rest) := by
  have start := Opcode.startOf?_eq_some_iff.mpr (code_starts unit rest)
  rw [read?, start, Option.bind_some, tokens, List.append_assoc, List.drop_left]
  exact afterCode?_parameter unit rest

theorem tokens_of_read? {tokens rest : List Token} {unit : CodeUnit}
    (read : read? tokens = some (unit, rest)) : tokens = unit.tokens ++ rest := by
  simp only [read?, Option.bind_eq_some_iff] at read
  obtain ⟨opcode, start, read⟩ := read
  obtain ⟨later, rfl⟩ := Opcode.startOf?_eq_some_iff.mp start
  rw [List.drop_left] at read
  obtain ⟨rfl, rfl⟩ := parameter_of_afterCode? read
  rw [CodeUnit.tokens, List.append_assoc]

theorem tokens_ne_nil (unit : CodeUnit) : unit.tokens ≠ [] := by
  simp [tokens, unit.opcode.code_ne_nil]

theorem length_of_read? {tokens rest : List Token} {unit : CodeUnit}
    (read : read? tokens = some (unit, rest)) : rest.length < tokens.length := by
  have some := List.length_pos_iff.mpr unit.tokens_ne_nil
  rw [tokens_of_read? read, List.length_append]
  omega

def readAll? (tokens : List Token) : Option (List CodeUnit) :=
  if tokens = [] then some []
  else
    match _read : read? tokens with
    | none => none
    | some (unit, rest) => (readAll? rest).map (unit :: ·)
termination_by tokens.length
decreasing_by exact length_of_read? _read

/-- Reading succeeds on nothing but units in a row, and gives these units back. -/
theorem readAll?_eq_some_iff {tokens : List Token} {units : List CodeUnit} :
    readAll? tokens = some units ↔ tokens = allTokens units := by
  constructor
  · intro read
    fun_induction readAll? tokens generalizing units with
    | case1 =>
      cases read
      rfl
    | case2 => contradiction
    | case3 tokens _ unit rest first ih =>
      obtain ⟨later, read_rest, rfl⟩ := Option.map_eq_some_iff.mp read
      rw [tokens_of_read? first, ih read_rest]
      rfl
  · rintro rfl
    induction units with
    | nil => simp [readAll?, allTokens]
    | cons unit units ih =>
      have first := read?_tokens unit (allTokens units)
      have some : unit.tokens ++ allTokens units ≠ [] := by simp [unit.tokens_ne_nil]
      rw [show allTokens (unit :: units) = unit.tokens ++ allTokens units from rfl, readAll?,
        if_neg some]
      split
      · rename_i failed
        rw [first] at failed
        contradiction
      · rename_i read
        rw [first] at read
        cases read
        rw [ih, Option.map_some]

def decode? (content : Bytes) : Option (List CodeUnit) := (Token.ofBytes? content).bind readAll?

theorem decode?_eq_some_iff {content : Bytes} {units : List CodeUnit} :
    decode? content = some units ↔ content = program units := by
  simp only [decode?, Option.bind_eq_some_iff, Token.ofBytes?_eq_some_iff, readAll?_eq_some_iff]
  constructor
  · rintro ⟨tokens, rfl, rfl⟩
    rfl
  · rintro rfl
    exact ⟨allTokens units, rfl, rfl⟩

theorem program_injective {a b : List CodeUnit} (same : program a = program b) : a = b := by
  have read := decode?_eq_some_iff.mpr same
  rw [decode?_eq_some_iff.mpr rfl] at read
  exact Option.some.inj read

end CodeUnit

end WhitespaceAsm
