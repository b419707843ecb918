import Mathlib.Data.List.Chain
import WhitespaceAsm.Proofs.Scanning

/-! Commands in normal form. What scanning leaves of a line are words with one space between them. A
word may begin and end in a slash, but a space keeps it apart from the next one, so that no comment
comes about where there was none: written out again, such a command is scanned to itself. -/
namespace WhitespaceAsm

namespace Text

def Single (c : Char) (text : List Char) : Prop := text.IsChain fun a b => ¬ (a = c ∧ b = c)

/-- There is neither a comment nor a separator, but for single spaces inside. -/
structure Spaced (text : List Char) : Prop where
  slashes : Single '/' text
  separators : ∀ c ∈ ['\t', '\r', '\n', '\x0B', '\x0C'], c ∉ text
  first : text.head? ≠ some ' '
  last : text.getLast? ≠ some ' '
  spaces : Single ' ' text

structure IsWord (word : List Char) : Prop where
  filled : word ≠ []
  solid : ∀ c ∈ word, isSeparator c = false
  slashes : Single '/' word

variable {word rest : List Char}

theorem single_of_not_mem {c : Char} (absent : c ∉ word) : Single c word := by
  apply List.isChain_iff_forall_rel_of_append_cons_cons.mpr
  rintro a b before after rfl ⟨rfl, _⟩
  simp at absent

theorem single_slash_append_iff :
    Single '/' (word ++ ' ' :: rest) ↔ Single '/' word ∧ Single '/' rest := by
  simp [Single, List.isChain_append, List.isChain_cons]

theorem single_space_append_iff (solid : ' ' ∉ word) :
    Single ' ' (word ++ ' ' :: rest) ↔ rest.head? ≠ some ' ' ∧ Single ' ' rest := by
  have before := single_of_not_mem solid
  have last : word.getLast? ≠ some ' ' := fun last => solid (List.mem_of_getLast? last)
  unfold Single at before ⊢
  simp only [List.isChain_append, List.isChain_cons, before, true_and]
  constructor
  · rintro ⟨⟨apart, later⟩, _⟩
    exact ⟨fun first => apart ' ' first rfl, later⟩
  · rintro ⟨apart, later⟩
    refine ⟨⟨?_, later⟩, ?_⟩
    · rintro c first rfl
      exact apart first
    · rintro c ends _ _ ⟨rfl, _⟩
      exact last ends

theorem solid_iff :
    (∀ c ∈ word, isSeparator c = false) ↔
      ' ' ∉ word ∧ ∀ c ∈ ['\t', '\r', '\n', '\x0B', '\x0C'], c ∉ word := by
  constructor
  · intro solid
    have absent : ∀ c, isSeparator c = true → c ∉ word := by
      intro c gap member
      rw [solid c member] at gap
      contradiction
    exact ⟨absent ' ' rfl, fun c listed =>
      absent c (isSeparator_iff.mpr (List.mem_cons_of_mem ' ' listed))⟩
  · rintro ⟨space, others⟩ c member
    by_contra gap
    rcases List.mem_cons.mp (isSeparator_iff.mp (Bool.not_eq_false _ ▸ gap)) with rfl | listed
    · exact space member
    · exact others c listed member

theorem spaced_iff_isWord (solid : ' ' ∉ word) (filled : word ≠ []) : Spaced word ↔ IsWord word := by
  constructor
  · intro spaced
    exact ⟨filled, solid_iff.mpr ⟨solid, spaced.separators⟩, spaced.slashes⟩
  · intro whole
    exact {
      slashes := whole.slashes
      separators := (solid_iff.mp whole.solid).2
      first := fun first => solid (List.mem_of_head? first)
      last := fun last => solid (List.mem_of_getLast? last)
      spaces := single_of_not_mem solid }

theorem spaced_append_iff (solid : ' ' ∉ word) :
    Spaced (word ++ ' ' :: rest) ↔ IsWord word ∧ Spaced rest ∧ rest ≠ [] := by
  have ends : rest ≠ [] → (word ++ ' ' :: rest).getLast? = rest.getLast? := by
    intro filled
    rw [List.getLast?_append_cons, List.getLast?_cons_of_ne_nil filled]
  constructor
  · intro spaced
    have filled : rest ≠ [] := by
      rintro rfl
      exact spaced.last (by simp)
    have apart : ∀ c ∈ ['\t', '\r', '\n', '\x0B', '\x0C'], c ∉ word ∧ c ∉ rest := by
      intro c listed
      have absent := spaced.separators c listed
      simp only [List.mem_append, List.mem_cons, not_or] at absent
      exact ⟨absent.1, absent.2.2⟩
    obtain ⟨before, after⟩ := single_slash_append_iff.mp spaced.slashes
    obtain ⟨first, spaces⟩ := (single_space_append_iff solid).mp spaced.spaces
    refine ⟨⟨?_, solid_iff.mpr ⟨solid, fun c listed => (apart c listed).1⟩, before⟩, ?_, filled⟩
    · rintro rfl
      exact spaced.first rfl
    · exact ⟨after, fun c listed => (apart c listed).2, first, ends filled ▸ spaced.last, spaces⟩
  · rintro ⟨whole, spaced, filled⟩
    refine ⟨single_slash_append_iff.mpr ⟨whole.slashes, spaced.slashes⟩, ?_, ?_, ?_,
      (single_space_append_iff solid).mpr ⟨spaced.first, spaced.spaces⟩⟩
    · intro c listed
      have other : c ≠ ' ' := by
        rintro rfl
        revert listed
        decide
      simpa [other] using ⟨(solid_iff.mp whole.solid).2 c listed, spaced.separators c listed⟩
    · rw [List.head?_append_of_ne_nil _ whole.filled]
      exact fun first => solid (List.mem_of_head? first)
    · exact (ends filled).symm ▸ spaced.last

theorem spaced_nil : Spaced [] :=
  ⟨single_of_not_mem List.not_mem_nil, fun _ _ => List.not_mem_nil, nofun, nofun,
    single_of_not_mem List.not_mem_nil⟩

theorem Spaced.exists_words {text : List Char} (spaced : Spaced text) :
    ∃ words, (∀ word ∈ words, IsWord word) ∧ text = List.intercalate [' '] words := by
  by_cases filled : text = []
  · exact ⟨[], by simp, filled⟩
  · by_cases space : ' ' ∈ text
    · obtain ⟨word, rest, rfl, solid⟩ := List.eq_append_cons_of_mem space
      obtain ⟨whole, later, some⟩ := (spaced_append_iff solid).mp spaced
      -- What follows the first space is shorter.
      obtain ⟨words, all, rfl⟩ := later.exists_words
      refine ⟨word :: words, List.forall_mem_cons.mpr ⟨whole, all⟩, ?_⟩
      rw [List.intercalate_cons_of_ne_nil]
      · simp
      · rintro rfl
        exact some rfl
    · exact ⟨[text], List.forall_mem_singleton.mpr ((spaced_iff_isWord space filled).mp spaced),
        List.intercalate_singleton.symm⟩
termination_by text.length
decreasing_by
  subst_vars
  simp only [List.length_append, List.length_cons]
  omega

theorem join_eq_nil_iff {words : List (List Char)} (all : ∀ word ∈ words, IsWord word) :
    List.intercalate [' '] words = [] ↔ words = [] := by
  cases words with
  | nil => simp
  | cons word words =>
    obtain ⟨c, later, rfl⟩ := List.exists_cons_of_ne_nil (all word List.mem_cons_self).filled
    simp [List.intercalate_cons_cons_left]

theorem spaced_join {words : List (List Char)} (all : ∀ word ∈ words, IsWord word) :
    Spaced (List.intercalate [' '] words) := by
  induction words with
  | nil => exact spaced_nil
  | cons word words ih =>
    obtain ⟨whole, others⟩ := List.forall_mem_cons.mp all
    have solid := (solid_iff.mp whole.solid).1
    cases words with
    | nil =>
      rw [List.intercalate_singleton]
      exact (spaced_iff_isWord solid whole.filled).mpr whole
    | cons next words =>
      have some := mt (join_eq_nil_iff others).mp (List.cons_ne_nil next words)
      rw [List.intercalate_cons_cons, List.append_assoc, List.singleton_append]
      exact (spaced_append_iff solid).mpr ⟨whole, ih others, some⟩

end Text

namespace Statement

theorem single_uncommented (line : List Char) : Text.Single '/' (uncommented line) := by
  induction line with
  | nil => exact Text.single_of_not_mem List.not_mem_nil
  | cons c rest ih =>
    rw [uncommented]
    split
    · exact Text.single_of_not_mem List.not_mem_nil
    · rename_i apart
      refine List.isChain_cons.mpr ⟨?_, ih⟩
      rintro d first ⟨rfl, rfl⟩
      obtain ⟨after, whole⟩ := uncommented_prefix rest
      obtain ⟨later, starts⟩ := List.head?_eq_some_iff.mp first
      exact apart ⟨rfl, by rw [← whole, starts]; rfl⟩

theorem uncommented_single {text : List Char} (slashes : Text.Single '/' text) :
    uncommented text = text := by
  induction text with
  | nil => rfl
  | cons c rest ih =>
    obtain ⟨apart, later⟩ := List.isChain_cons.mp slashes
    have single : ¬ (c = '/' ∧ rest.head? = some '/') := by
      rintro ⟨slash, first⟩
      exact apart '/' first ⟨slash, rfl⟩
    rw [uncommented, if_neg single, ih later]

theorem solid_of_mem_splitOnP {p : Char → Bool} {text piece : List Char}
    (member : piece ∈ text.splitOnP p) : ∀ c ∈ piece, p c = false := by
  induction text generalizing piece with
  | nil => simp_all
  | cons c rest ih =>
    obtain ⟨first, later, split⟩ := List.exists_cons_of_ne_nil (List.splitOnP_ne_nil p rest)
    rw [List.splitOnP_cons_eq_if_modifyHead] at member
    split at member
    · rcases List.mem_cons.mp member with rfl | member
      · simp
      · exact ih member
    · rename_i letter
      rw [split, List.modifyHead_cons] at member
      rcases List.mem_cons.mp member with rfl | member
      · exact List.forall_mem_cons.mpr ⟨by simpa using letter, ih (split ▸ List.mem_cons_self)⟩
      · exact ih (split ▸ List.mem_cons_of_mem first member)

theorem isWord_of_mem_plainWords {line word : List Char} (member : word ∈ plainWords line) :
    Text.IsWord word := by
  obtain ⟨piece, filled⟩ := List.mem_filter.mp member
  refine ⟨by simpa using filled, solid_of_mem_splitOnP piece, ?_⟩
  rw [plainWords, ← locate_texts 0] at member
  obtain ⟨found, located, rfl⟩ := List.mem_map.mp member
  obtain ⟨before, after, whole, _⟩ := locate_place located
  have slashes := single_uncommented line
  rw [whole] at slashes
  exact (List.isChain_append.mp (List.isChain_append.mp slashes).1).2.1

theorem plainWords_join {words : List (List Char)} (all : ∀ word ∈ words, Text.IsWord word) :
    plainWords (List.intercalate [' '] words) = words := by
  rw [plainWords, uncommented_single (Text.spaced_join all).slashes]
  induction words with
  | nil => rfl
  | cons word words ih =>
    obtain ⟨whole, others⟩ := List.forall_mem_cons.mp all
    cases words with
    | nil =>
      rw [List.intercalate_singleton, List.splitOnP_eq_singleton whole.solid]
      simp [whole.filled]
    | cons next words =>
      rw [List.intercalate_cons_cons, List.append_assoc, List.singleton_append,
        List.splitOnP_append_cons_of_forall_mem whole.solid ' ' rfl, List.filter_cons_of_pos, ih others]
      simpa using whole.filled

end Statement

namespace Command

def line (command : Command) : String :=
  if command.parameter = "" then command.mnemonic
  else command.mnemonic ++ " " ++ command.parameter

/-- A command in normal form: its mnemonic is one word, and its parameter is words with single spaces
between them. -/
structure Tidy (command : Command) : Prop where
  named : command.mnemonic ≠ ""
  unspaced : ' ' ∉ command.mnemonic.toList
  mnemonic : Text.Spaced command.mnemonic.toList
  parameter : Text.Spaced command.parameter.toList

theorem Tidy.exists_words {command : Command} (tidy : command.Tidy) :
    ∃ words, (∀ word ∈ command.mnemonic.toList :: words, Text.IsWord word) ∧
      command.parameter.toList = List.intercalate [' '] words ∧
      command.line.toList = List.intercalate [' '] (command.mnemonic.toList :: words) := by
  have filled : command.mnemonic.toList ≠ [] := by simpa using tidy.named
  have whole := (Text.spaced_iff_isWord tidy.unspaced filled).mp tidy.mnemonic
  obtain ⟨words, all, joined⟩ := tidy.parameter.exists_words
  refine ⟨words, List.forall_mem_cons.mpr ⟨whole, all⟩, joined, ?_⟩
  have none : command.parameter = "" ↔ words = [] := by
    rw [← Text.join_eq_nil_iff all, ← joined, String.toList_eq_nil_iff]
  unfold line
  split
  · rename_i bare
    rw [none.mp bare, List.intercalate_singleton]
  · rename_i some
    rw [List.intercalate_cons_of_ne_nil (mt none.mpr some), ← joined]
    simp

end Command

namespace Statement

theorem scan_tidy {line : String} {statement : Statement}
    (scanned : scan line = .ok (some statement)) : statement.toCommand.Tidy := by
  have spelled := scan_command scanned
  unfold plainCommand? at spelled
  cases words : plainWords line.toList with
  | nil =>
    rw [words] at spelled
    contradiction
  | cons first rest =>
    rw [words] at spelled
    have all : ∀ word ∈ first :: rest, Text.IsWord word :=
      fun word member => isWord_of_mem_plainWords (words ▸ member)
    obtain ⟨whole, others⟩ := List.forall_mem_cons.mp all
    have solid := (Text.solid_iff.mp whole.solid).1
    have command := Option.some.inj spelled
    rw [command]
    exact {
      named := by simpa using whole.filled
      unspaced := by simpa using solid
      mnemonic := by simpa using (Text.spaced_iff_isWord solid whole.filled).mpr whole
      parameter := by simpa using Text.spaced_join others }

theorem scan_line {command : Command} (tidy : command.Tidy) :
    scan command.line = .ok (some ⟨command, ⟨0, command.mnemonic.utf8ByteSize⟩⟩) := by
  obtain ⟨words, all, parameter, line⟩ := tidy.exists_words
  have slashes := (Text.spaced_join all).slashes
  have start : (List.intercalate [' '] (command.mnemonic.toList :: words)).takeWhile isSeparator =
      [] := by
    have whole := all _ List.mem_cons_self
    obtain ⟨c, later, letters⟩ := List.exists_cons_of_ne_nil whole.filled
    have letter : isSeparator c = false := whole.solid c (letters ▸ List.mem_cons_self)
    rw [letters, List.intercalate_cons_cons_left, List.takeWhile_cons_of_neg (by simp [letter])]
  rw [scan_eq_plain, plain?, line, plainWords_join all, uncommented_single slashes, start]
  simp [← parameter, Text.width_toList]

end Statement

end WhitespaceAsm
