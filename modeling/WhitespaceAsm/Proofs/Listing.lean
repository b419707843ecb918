import Mathlib.Data.List.DropRight
import WhitespaceAsm.Proofs.Emission
import WhitespaceAsm.Proofs.Independence
import WhitespaceAsm.Proofs.Outcome

/-! Listings read back. The columns of a row are not marked off, and its source may hold any text but
a line feed, spaces and letters of tokens included. Still nothing is lost: letters are no spaces, so
they start after the last one; digits are no spaces either; and the source has no blanks at its
ends, so that the spaces around it are known to fill the columns. -/
namespace WhitespaceAsm

namespace Token

def letter : Token → Char
  | space => 'S'
  | tab => 'T'
  | lineFeed => 'L'

def ofLetter? (c : Char) : Option Token :=
  [space, tab, lineFeed].find? fun token => token.letter == c

theorem mapM_letters (tokens : List Token) : (tokens.map letter).mapM ofLetter? = some tokens := by
  have one : ∀ token : Token, ofLetter? token.letter = some token := by
    intro token
    cases token <;> decide
  induction tokens with
  | nil => rfl
  | cons token tokens ih => simp [one, ih]

theorem toList_visible (tokens : List Token) :
    (visible (text tokens)).toList = tokens.map letter := by
  simp only [visible, text, String.toList_ofList, List.map_map]
  apply List.map_congr_left
  intro token _
  cases token <;> rfl

theorem not_mem_letters {c : Char} (other : c = ' ' ∨ c = '\n') (tokens : List Token) :
    c ∉ tokens.map letter := by
  intro member
  obtain ⟨token, _, rfl⟩ := List.mem_map.mp member
  revert other
  cases token <;> decide

end Token

namespace Row

/-- Reads a row from its two ends. The tokens are after its last space, the number is the digits after
its first spaces, and the source is what remains between them without the spaces around it. -/
def read? (text : List Char) : Option Row :=
  let numbered := (text.rdropWhile (· != ' ')).dropWhile (· == ' ')
  let number := numbered.takeWhile Char.isDigit
  let source := ((numbered.dropWhile Char.isDigit).dropWhile (· == ' ')).rdropWhile (· == ' ')
  ((text.rtakeWhile (· != ' ')).mapM Token.ofLetter?).map fun tokens =>
    ⟨Nat.ofDigitChars 10 number 0, String.ofList source, Token.text tokens⟩

/- What stands before the last space of a row, and the row without its line feed. -/
def front (row : Row) : List Char :=
  List.replicate (5 - (Nat.toDigits 10 row.number).length) ' ' ++
    (Nat.toDigits 10 row.number ++
      (List.replicate 2 ' ' ++ (row.source.toList ++ List.replicate (40 - row.source.length + 1) ' ')))

def line (row : Row) : List Char := row.front ++ ' ' :: (visible row.program).toList

theorem toList_render (row : Row) : row.render.toList = row.line ++ ['\n'] := by
  simp [render, padLeft, padRight, line, front, ← String.length_toList, List.replicate_succ']

/- Filling up a text that neither starts nor ends with a space can be undone. -/
theorem unfill {cs : List Char} (first : cs.head? ≠ some ' ') (last : cs.getLast? ≠ some ' ')
    (left right : Nat) :
    ((List.replicate left ' ' ++ (cs ++ List.replicate right ' ')).dropWhile
      (· == ' ')).rdropWhile (· == ' ') = cs := by
  rw [← List.append_assoc]
  apply strip_append
  · simp
  · simp
  · rintro c starts
    simpa using fun space : c = ' ' => first (space ▸ starts)
  · rintro c ends
    simpa using fun space : c = ' ' => last (space ▸ ends)

theorem split_last_space (before : List Char) {letters : List Char} (spaceless : ' ' ∉ letters) :
    (before ++ ' ' :: letters).rtakeWhile (· != ' ') = letters ∧
      (before ++ ' ' :: letters).rdropWhile (· != ' ') = before ++ [' '] := by
  have inside : ∀ c ∈ letters.reverse, (c != ' ') = true := by
    intro c member
    have other : c ≠ ' ' := fun space => spaceless (space ▸ List.mem_reverse.mp member)
    simpa using other
  constructor
  · simp [List.rtakeWhile, List.takeWhile_append_of_pos inside]
  · simp [List.rdropWhile, List.dropWhile_append_of_pos inside]

theorem isDigit_number {row : Row} {c : Char} (member : c ∈ Nat.toDigits 10 row.number) :
    c.isDigit = true :=
  Nat.isDigit_of_mem_toDigits (by decide) (by decide) member

theorem split_number (row : Row) (rest : List Char) :
    let filled := Nat.toDigits 10 row.number ++ (List.replicate 2 ' ' ++ rest)
    filled.takeWhile Char.isDigit = Nat.toDigits 10 row.number ∧
      filled.dropWhile Char.isDigit = List.replicate 2 ' ' ++ rest := by
  have stop : ¬ Char.isDigit ' ' = true := by decide
  constructor
  · rw [List.takeWhile_append_of_pos fun _ => isDigit_number]
    exact (congrArg _ (List.takeWhile_cons_of_neg stop)).trans (List.append_nil _)
  · rw [List.dropWhile_append_of_pos fun _ => isDigit_number]
    exact List.dropWhile_cons_of_neg stop

theorem dropWhile_front (row : Row) :
    (row.front ++ [' ']).dropWhile (· == ' ') =
      Nat.toDigits 10 row.number ++ (List.replicate 2 ' ' ++
        (row.source.toList ++ List.replicate (40 - row.source.length + 2) ' ')) := by
  have inked : ∀ rest : List Char, ∀ c ∈ (Nat.toDigits 10 row.number ++ rest).head?,
      (c == ' ') = false := by
    intro rest c first
    rw [List.head?_append_of_ne_nil _ Nat.toDigits_ne_nil] at first
    have digit := isDigit_number (List.mem_of_head? first)
    rw [beq_eq_false_iff_ne]
    rintro rfl
    contradiction
  have fill : ∀ c ∈ List.replicate (5 - (Nat.toDigits 10 row.number).length) ' ',
      (c == ' ') = true := by simp
  rw [← dropWhile_append_stop fill (inked _)]
  simp [front, List.replicate_succ']

structure Legible (row : Row) : Prop where
  tokens : ∃ tokens, row.program = Token.text tokens
  inside : '\n' ∉ row.source.toList
  first : row.source.toList.head? ≠ some ' '
  last : row.source.toList.getLast? ≠ some ' '

theorem read?_line {row : Row} (legible : row.Legible) : read? row.line = some row := by
  obtain ⟨tokens, program⟩ := legible.tokens
  have letters : (visible row.program).toList = tokens.map Token.letter := by
    rw [program, Token.toList_visible]
  obtain ⟨taken, dropped⟩ :=
    split_last_space row.front (Token.not_mem_letters (.inl rfl) tokens)
  obtain ⟨number, rest⟩ := row.split_number
    (row.source.toList ++ List.replicate (40 - row.source.length + 2) ' ')
  have source := unfill legible.first legible.last 2 (40 - row.source.length + 2)
  simp only [line, read?, letters, taken, dropped, dropWhile_front, number, rest, source,
    Token.mapM_letters, Nat.ofDigitChars_ten_toDigits, String.ofList_toList, ← program,
    Option.map_some]

theorem not_mem_line {row : Row} (legible : row.Legible) : '\n' ∉ row.line := by
  obtain ⟨tokens, program⟩ := legible.tokens
  have digits : '\n' ∉ Nat.toDigits 10 row.number := by
    intro member
    exact absurd (isDigit_number member) (by decide)
  have letters : '\n' ∉ (visible row.program).toList := by
    rw [program, Token.toList_visible]
    exact Token.not_mem_letters (.inr rfl) tokens
  simp [line, front, digits, legible.inside, letters]

end Row

namespace Listing

theorem toList_render (rows : List Row) :
    (render rows).toList = rows.flatMap fun row => row.line ++ ['\n'] := by
  induction rows with
  | nil => rfl
  | cons row rows ih =>
    have first : render [row] = row.render := String.empty_append
    rw [← List.singleton_append, render_append, String.toList_append, ih, first, Row.toList_render]
    rfl

theorem splitOn_render {rows : List Row} (legible : ∀ row ∈ rows, row.Legible) :
    (render rows).toList.splitOn '\n' = rows.map Row.line ++ [[]] := by
  rw [toList_render]
  induction rows with
  | nil => rfl
  | cons row rows ih =>
    obtain ⟨first, others⟩ := List.forall_mem_cons.mp legible
    rw [List.flatMap_cons, List.append_assoc, List.singleton_append,
      List.splitOn_append_cons_self_of_not_mem (Row.not_mem_line first), ih others]
    rfl

theorem map_read? {rows : List Row} (legible : ∀ row ∈ rows, row.Legible) :
    (rows.map Row.line).map Row.read? = rows.map some := by
  rw [List.map_map]
  apply List.map_congr_left
  intro row member
  exact Row.read?_line (legible row member)

theorem filterMap_read? {rows : List Row} (legible : ∀ row ∈ rows, row.Legible) :
    (rows.map Row.line).filterMap Row.read? = rows := by
  calc (rows.map Row.line).filterMap Row.read?
      = ((rows.map Row.line).map Row.read?).filterMap id := by simp [List.filterMap_map]
    _ = (rows.map some).filterMap id := by rw [map_read? legible]
    _ = rows := by simp [List.filterMap_map]

end Listing

namespace Source

theorem feed_of_text {content : Bytes} {text : String} (read : Text.ofBytes? content = some text)
    (feed : '\n' ∈ text.toList) : 10 ∈ content := by
  rw [← Text.ofBytes?_eq_some_iff.mp read]
  exact List.mem_flatMap.mpr ⟨'\n', feed, by decide⟩

/- A line has no line feed in it, its source is trimmed, and a command is emitted in tokens. -/
theorem legible_translations (source : Source) : ∀ row ∈ source.translations, row.Legible := by
  intro row member
  obtain ⟨⟨line, number⟩, place, found⟩ := List.mem_filterMap.mp member
  obtain ⟨content, text, command, program, rfl, read, _, emitted, rfl⟩ :=
    Outcome.translation?_cases number found
  have inside : 10 ∉ content := Delivery.lines_inside (List.fst_mem_of_mem_zipIdx place)
  have space : ' '.toNat ∈ Text.whiteSpace := by decide
  obtain ⟨_, _, _, _, first, last⟩ := Text.trims_trimmed text.toList
  rw [← Text.toList_trim] at first last
  constructor
  · obtain ⟨units, rfl⟩ := Command.program_units emitted
    exact ⟨CodeUnit.allTokens units, rfl⟩
  · intro feed
    rw [Text.toList_trim] at feed
    exact inside (feed_of_text read (Text.mem_of_mem_trimmed feed))
  · exact fun starts => first ' ' starts space
  · exact fun ends => last ' ' ends space

theorem translations_of_lines (source : Source) :
    ∀ row ∈ source.translations, ∃ content text, 1 ≤ row.number ∧
      (Delivery.lines source.deliveries)[row.number - 1]? = some (.ok content) ∧
      Text.ofBytes? content = some text ∧ Text.Trims text.toList row.source.toList := by
  intro row member
  obtain ⟨⟨line, number⟩, place, found⟩ := List.mem_filterMap.mp member
  obtain ⟨content, text, command, program, rfl, read, _, _, rfl⟩ :=
    Outcome.translation?_cases number found
  obtain ⟨counted, here⟩ := List.mk_mem_zipIdx_iff_le_and_getElem?_sub.mp place
  refine ⟨content, text, counted, here, read, ?_⟩
  rw [Text.toList_trim]
  exact Text.trims_trimmed _

end Source

/-- The listing is a record of the whole run. Cut at its line feeds it has one row for each translated
line, and each row by itself gives back the number, the trimmed source and the tokens of its line;
the tokens of all rows make up the program. -/
theorem listing_read_back (source : Source) (verbose : Bool) :
    let run := source.assembled verbose
    ∃ texts, (Listing.render run.rows.toList).toList.splitOn '\n' = texts ++ [[]] ∧
      texts.map Row.read? = source.translations.map some ∧
      (∀ row ∈ source.translations, ∃ content text, 1 ≤ row.number ∧
        (Delivery.lines source.deliveries)[row.number - 1]? = some (.ok content) ∧
        Text.ofBytes? content = some text ∧ Text.Trims text.toList row.source.toList) ∧
      (texts.filterMap Row.read?).flatMap (fun row => Text.bytes row.program) = run.sink.content := by
  intro run
  have rows : run.rows.toList = source.translations := source.rows_eq_translations verbose
  have legible := source.legible_translations
  refine ⟨source.translations.map Row.line, ?_, Listing.map_read? legible,
    source.translations_of_lines, ?_⟩
  · rw [rows, Listing.splitOn_render legible]
  · rw [Listing.filterMap_read? legible]
    exact (source.content_eq_translations verbose).symm

end WhitespaceAsm
