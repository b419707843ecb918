import WhitespaceAsm.Statement
import WhitespaceAsm.Proofs.Bytes

/-! The words of a line, said plainly: cut the line off before two adjacent slashes and split the rest
at separators. Lexemes come to the same words. They cut a word into pieces at every slash and glue the
pieces again by their places, so the places are carried along until the words are complete. -/
namespace WhitespaceAsm

namespace Lexeme

theorem longest_gap {c : Char} (gap : isSeparator c = true) (rest : List Char) :
    longest (c :: rest) = (.gap, (rest.takeWhile isSeparator).length + 1) := by
  have slash : c ≠ '/' := by
    rintro rfl
    contradiction
  have plain : isPlain c = false := by simp [isPlain, gap]
  simp [longest, Kind.reach, gap, slash, plain]

theorem longest_plain {c : Char} (plain : isPlain c = true) (rest : List Char) :
    longest (c :: rest) = (.text, (rest.takeWhile isPlain).length + 1) := by
  have letter : isSeparator c = false ∧ c ≠ '/' := by simpa [isPlain] using plain
  simp [longest, Kind.reach, letter.1, letter.2, plain]

theorem longest_slash {rest : List Char} (single : rest.head? ≠ some '/') :
    longest ('/' :: rest) = (.text, 1) := by
  have gap : isSeparator '/' = false := by decide
  cases rest with
  | nil => decide
  | cons d later =>
    have other : d ≠ '/' := by simpa using single
    simp [longest, Kind.reach, gap, other]

theorem longest_comment (rest : List Char) :
    longest ('/' :: '/' :: rest) = (.comment, (rest.takeWhile (· != '\n')).length + 2) := by
  have gap : isSeparator '/' = false := by decide
  simp [longest, Kind.reach, gap, Nat.add_comm 2]

theorem split_cons {c : Char} {rest : List Char} {kind : Kind} {size : Nat}
    (found : longest (c :: rest) = (kind, size + 1)) (start : Nat) :
    split start (c :: rest) =
      ⟨kind, c :: rest.take size, start⟩ ::
        split (start + Text.width (c :: rest.take size)) (rest.drop size) := by
  rw [split]
  simp [found]

/- A lexeme that takes in all characters of a class. -/
theorem split_stretch {p : Char → Bool} {c : Char} {rest : List Char} {kind : Kind}
    (found : longest (c :: rest) = (kind, (rest.takeWhile p).length + 1)) (start : Nat) :
    split start (c :: rest) =
      ⟨kind, c :: rest.takeWhile p, start⟩ ::
        split (start + Text.width (c :: rest.takeWhile p)) (rest.dropWhile p) := by
  have taken : rest.take (rest.takeWhile p).length = rest.takeWhile p :=
    (List.prefix_iff_eq_take.mp (List.takeWhile_prefix p)).symm
  have left : rest.drop (rest.takeWhile p).length = rest.dropWhile p := by
    have whole := List.takeWhile_append_dropWhile (p := p) (l := rest)
    rw [← @List.drop_left _ (rest.takeWhile p) (rest.dropWhile p), whole]
  rw [split_cons found, taken, left]

end Lexeme

namespace Statement

def uncommented : List Char → List Char
  | [] => []
  | c :: rest => if c = '/' ∧ rest.head? = some '/' then [] else c :: uncommented rest

/-- The words of a line: what separators leave of it before its comment. -/
def plainWords (line : List Char) : List (List Char) :=
  ((uncommented line).splitOnP isSeparator).filter fun word => !word.isEmpty

theorem uncommented_append {text : List Char} (free : ∀ c ∈ text, c ≠ '/') (rest : List Char) :
    uncommented (text ++ rest) = text ++ uncommented rest := by
  induction text with
  | nil => rfl
  | cons c text ih =>
    have letter : ¬ (c = '/' ∧ (text ++ rest).head? = some '/') :=
      fun slashes => free c (by simp) slashes.1
    rw [List.cons_append, uncommented, if_neg letter, ih fun d member => free d (by simp [member])]
    rfl

theorem uncommented_eq {text : List Char} (free : ∀ c ∈ text, c ≠ '/') : uncommented text = text := by
  simpa [uncommented] using uncommented_append free []

theorem plainWords_word {word : List Char} (some : word ≠ []) (plain : ∀ c ∈ word, isPlain c = true) :
    plainWords word = [word] := by
  have letters : ∀ c ∈ word, isSeparator c = false ∧ c ≠ '/' := by simpa [isPlain] using plain
  rw [plainWords, uncommented_eq fun c member => (letters c member).2,
    List.splitOnP_eq_singleton fun c member => (letters c member).1]
  simp [some]

theorem plainWords_pair {first second : List Char} (some_first : first ≠ [])
    (plain_first : ∀ c ∈ first, isPlain c = true) (some_second : second ≠ [])
    (plain_second : ∀ c ∈ second, isPlain c = true) :
    plainWords (first ++ ' ' :: second) = [first, second] := by
  have one : ∀ c ∈ first, isSeparator c = false ∧ c ≠ '/' := by simpa [isPlain] using plain_first
  have two : ∀ c ∈ second, isSeparator c = false ∧ c ≠ '/' := by simpa [isPlain] using plain_second
  have free : ∀ c ∈ first ++ ' ' :: second, c ≠ '/' := by
    intro c member
    rcases List.mem_append.mp member with member | member
    · exact (one c member).2
    · rcases List.mem_cons.mp member with rfl | member
      · decide
      · exact (two c member).2
  rw [plainWords, uncommented_eq free,
    List.splitOnP_append_cons_of_forall_mem (fun c member => (one c member).1) ' ' (by decide),
    List.splitOnP_eq_singleton fun c member => (two c member).1]
  simp [some_first, some_second]

/- The words of a text without comments and where they stand, letter by letter. -/
def locate (start : Nat) : List Char → List Word
  | [] => []
  | c :: rest =>
    if isSeparator c then locate (start + c.utf8Size) rest
    else Word.glue ⟨[c], start⟩ (locate (start + c.utf8Size) rest)

theorem locate_gap {gap : List Char} (all : ∀ c ∈ gap, isSeparator c = true) (start : Nat)
    (rest : List Char) : locate start (gap ++ rest) = locate (start + Text.width gap) rest := by
  induction gap generalizing start with
  | nil => rfl
  | cons c gap ih =>
    rw [List.cons_append, locate, if_pos (all c (by simp)), ih fun d member => all d (by simp [member]),
      Text.width_cons, Nat.add_assoc]

theorem glue_cons (c : Char) (text : List Char) (start : Nat) (later : List Word) :
    Word.glue ⟨c :: text, start⟩ later =
      Word.glue ⟨[c], start⟩ (Word.glue ⟨text, start + c.utf8Size⟩ later) := by
  cases later with
  | nil => simp [Word.glue, Word.span]
  | cons next rest =>
    by_cases touch : start + c.utf8Size + Text.width text = next.start
    · simp [Word.glue, Word.span, touch, ← Nat.add_assoc]
    · simp [Word.glue, Word.span, touch, ← Nat.add_assoc]

theorem locate_text {c : Char} {text : List Char} (all : ∀ d ∈ c :: text, isSeparator d = false)
    (start : Nat) (rest : List Char) :
    locate start (c :: text ++ rest) =
      Word.glue ⟨c :: text, start⟩ (locate (start + Text.width (c :: text)) rest) := by
  induction text generalizing c start with
  | nil =>
    rw [List.cons_append, locate, if_neg (by simp [all c])]
    rfl
  | cons d text ih =>
    rw [List.cons_append, locate, if_neg (by simp [all c]), ih fun e member => all e (by simp_all),
      glue_cons c (d :: text), Text.width_cons c, Nat.add_assoc]

theorem forall_cons_takeWhile {p : Char → Bool} {c : Char} (first : p c = true) (rest : List Char) :
    ∀ d ∈ c :: rest.takeWhile p, p d = true :=
  List.all_eq_true.mp (by simp [first])

theorem foldr_split (start : Nat) (line : List Char) :
    (Lexeme.split start line).foldr addLexeme (.ok []) = .ok (locate start (uncommented line)) := by
  -- On what is left of the line after its first lexeme. A comment leaves nothing of it.
  match line with
  | [] =>
    rw [Lexeme.split]
    rfl
  | c :: rest =>
    by_cases gap : isSeparator c = true
    · have later := foldr_split (start + Text.width (c :: rest.takeWhile isSeparator))
        (rest.dropWhile isSeparator)
      have whole : c :: rest.takeWhile isSeparator ++ rest.dropWhile isSeparator = c :: rest := by simp
      have all := forall_cons_takeWhile gap rest
      have free : ∀ d ∈ c :: rest.takeWhile isSeparator, d ≠ '/' := by
        rintro d member rfl
        exact absurd (all '/' member) (by decide)
      rw [Lexeme.split_stretch (Lexeme.longest_gap gap rest), List.foldr_cons, later, ← whole,
        uncommented_append free, locate_gap all]
      rfl
    · by_cases slash : c = '/'
      · subst slash
        by_cases double : rest.head? = some '/'
        · obtain ⟨later, rfl⟩ := List.head?_eq_some_iff.mp double
          rw [Lexeme.split_cons (Lexeme.longest_comment later), uncommented, if_pos ⟨rfl, rfl⟩]
          rfl
        · have later := foldr_split (start + Text.width ['/']) rest
          have single : ¬ ('/' = '/' ∧ rest.head? = some '/') := fun slashes => double slashes.2
          rw [Lexeme.split_cons (Lexeme.longest_slash double), List.take_zero, List.drop_zero,
            List.foldr_cons, later, uncommented, if_neg single, locate, if_neg gap]
          rfl
      · have plain : isPlain c = true := by simp [isPlain, gap, slash]
        have later := foldr_split (start + Text.width (c :: rest.takeWhile isPlain))
          (rest.dropWhile isPlain)
        have whole : c :: rest.takeWhile isPlain ++ rest.dropWhile isPlain = c :: rest := by simp
        have all : ∀ d ∈ c :: rest.takeWhile isPlain, isSeparator d = false ∧ d ≠ '/' := by
          intro d member
          simpa [isPlain] using forall_cons_takeWhile plain rest d member
        rw [Lexeme.split_stretch (Lexeme.longest_plain plain rest), List.foldr_cons, later, ← whole,
          uncommented_append fun d member => (all d member).2,
          locate_text fun d member => (all d member).1]
        rfl
termination_by line.length
decreasing_by
  · exact Nat.lt_succ_of_le (List.dropWhile_suffix isSeparator).length_le
  · exact Nat.lt_succ_self _
  · exact Nat.lt_succ_of_le (List.dropWhile_suffix isPlain).length_le

/- The first piece of a split text is a word if it is not empty, and only then does the first word
start where the text does. -/
theorem locate_split (start : Nat) (text : List Char) :
    ∃ first later words, text.splitOnP isSeparator = first :: later ∧
      words.map Word.text = later.filter (fun word => !word.isEmpty) ∧
      (first = [] ∧ locate start text = words ∧ (∀ word ∈ words.head?, start < word.start) ∨
        first ≠ [] ∧ locate start text = ⟨first, start⟩ :: words) := by
  induction text generalizing start with
  | nil => exact ⟨[], [], [], rfl, rfl, .inl ⟨rfl, rfl, by simp⟩⟩
  | cons c rest ih =>
    have size := c.utf8Size_pos
    obtain ⟨first, later, words, split, texts, place⟩ := ih (start + c.utf8Size)
    by_cases gap : isSeparator c = true
    · rw [List.splitOnP_cons_eq_if_modifyHead, if_pos gap, split, locate, if_pos gap]
      rcases place with ⟨rfl, located, beyond⟩ | ⟨some, located⟩
      · refine ⟨[], _, words, rfl, by simpa using texts, .inl ⟨rfl, located, ?_⟩⟩
        intro word member
        have := beyond word member
        omega
      · refine ⟨[], _, _, rfl, ?_, .inl ⟨rfl, located, ?_⟩⟩
        · simp [some, texts]
        · simpa using size
    · rw [List.splitOnP_cons_eq_if_modifyHead, if_neg gap, split, locate, if_neg gap]
      rcases place with ⟨rfl, located, beyond⟩ | ⟨some, located⟩
      · refine ⟨[c], later, words, rfl, texts, .inr ⟨by simp, ?_⟩⟩
        rw [located]
        cases words with
        | nil => rfl
        | cons next words =>
          have apart : start + c.utf8Size < next.start := beyond next rfl
          simp [Word.glue, Word.span, Nat.ne_of_lt apart]
      · refine ⟨c :: first, later, words, rfl, texts, .inr ⟨by simp, ?_⟩⟩
        rw [located]
        simp [Word.glue, Word.span]

theorem locate_texts (start : Nat) (text : List Char) :
    (locate start text).map Word.text =
      (text.splitOnP isSeparator).filter fun word => !word.isEmpty := by
  obtain ⟨first, later, words, split, texts, place⟩ := locate_split start text
  rcases place with ⟨rfl, located, _⟩ | ⟨some, located⟩
  · simp [split, located, texts]
  · simp [split, located, texts, some]

theorem plainWords_gap {gap : List Char} (all : ∀ c ∈ gap, isSeparator c = true) :
    plainWords gap = [] := by
  have free : ∀ c ∈ gap, c ≠ '/' := by
    rintro c member rfl
    exact absurd (all _ member) (by decide)
  have nothing : locate 0 gap = [] := by
    rw [← List.append_nil gap, locate_gap all]
    rfl
  rw [plainWords, uncommented_eq free, ← locate_texts 0 gap, nothing]
  rfl

theorem locate_place {start : Nat} {text : List Char} {word : Word}
    (member : word ∈ locate start text) :
    ∃ before after, text = before ++ word.text ++ after ∧ word.start = start + Text.width before := by
  induction text generalizing start word with
  | nil => contradiction
  | cons c rest ih =>
    have shift : ∀ {word}, word ∈ locate (start + c.utf8Size) rest →
        ∃ before after, c :: rest = before ++ word.text ++ after ∧
          word.start = start + Text.width before := by
      intro word member
      obtain ⟨before, after, split, place⟩ := ih member
      exact ⟨c :: before, after, by simp [split], by simp [place, Nat.add_assoc]⟩
    by_cases gap : isSeparator c = true
    · rw [locate, if_pos gap] at member
      exact shift member
    · rw [locate, if_neg gap] at member
      have alone : ∃ before after, c :: rest = before ++ [c] ++ after ∧
          start = start + Text.width before := ⟨[], rest, rfl, rfl⟩
      cases located : locate (start + c.utf8Size) rest with
      | nil =>
        rw [located] at member
        cases List.mem_singleton.mp member
        exact alone
      | cons next words =>
        rw [located, Word.glue] at member
        split at member
        · rename_i touch
          rcases List.mem_cons.mp member with rfl | member
          · obtain ⟨before, after, split, place⟩ := ih (located ▸ List.mem_cons_self)
            simp only [Word.span, Text.width_cons, Text.width_nil] at touch
            have empty : before = [] := Text.eq_nil_of_width (by omega)
            exact ⟨[], after, by simp [split, empty], rfl⟩
          · exact shift (located ▸ List.mem_cons_of_mem next member)
        · rcases List.mem_cons.mp member with rfl | member
          · exact alone
          · exact shift (located ▸ member)

theorem uncommented_prefix (line : List Char) : uncommented line <+: line := by
  induction line with
  | nil => exact List.prefix_refl []
  | cons c rest ih =>
    rw [uncommented]
    split
    · exact List.nil_prefix
    · exact List.prefix_cons_inj c |>.mpr ih

/- Lexing never fails: every character belongs to some lexeme. -/
theorem scan_eq (line : String) :
    scan line = .ok (ofWords (locate 0 (uncommented line.toList))) := by
  rw [scan, words, foldr_split]
  rfl

def plainCommand? (line : String) : Option Command :=
  match plainWords line.toList with
  | [] => none
  | first :: rest => some ⟨String.ofList first, String.ofList (List.intercalate [' '] rest)⟩

theorem scan_command {line : String} {found : Option Statement} (scanned : scan line = .ok found) :
    found.map Statement.toCommand = plainCommand? line := by
  rw [scan_eq] at scanned
  cases scanned
  have texts := locate_texts 0 (uncommented line.toList)
  rw [plainCommand?, plainWords, ← texts]
  cases locate 0 (uncommented line.toList) with
  | nil => rfl
  | cons first rest => rfl

theorem scan_of_command {line : String} {command : Command}
    (spelled : plainCommand? line = some command) :
    ∃ statement, scan line = .ok (some statement) ∧ statement.toCommand = command := by
  have same := scan_command (scan_eq line)
  rw [spelled] at same
  obtain ⟨statement, found, rfl⟩ := Option.map_eq_some_iff.mp same
  exact ⟨statement, by rw [scan_eq, found], rfl⟩

theorem scan_span {line : String} {statement : Statement}
    (scanned : scan line = .ok (some statement)) :
    ∃ before after, line.toList = before ++ statement.mnemonic.toList ++ after ∧
      statement.span =
        ⟨Text.width before, Text.width before + Text.width statement.mnemonic.toList⟩ := by
  rw [scan_eq] at scanned
  cases located : locate 0 (uncommented line.toList) with
  | nil =>
    rw [located] at scanned
    simp [ofWords] at scanned
  | cons first rest =>
    rw [located] at scanned
    cases scanned
    obtain ⟨before, after, split, place⟩ := locate_place (located ▸ List.mem_cons_self)
    obtain ⟨comment, whole⟩ := uncommented_prefix line.toList
    refine ⟨before, after ++ comment, ?_, ?_⟩
    · rw [← whole, split]
      simp
    · simp [Word.span, place]

end Statement

def Span.cut (span : Span) (content : Bytes) : Bytes :=
  (content.drop span.start).take (span.stop - span.start)

theorem Statement.cut_span {line : String} {statement : Statement}
    (scanned : scan line = .ok (some statement)) :
    statement.span.cut (Text.bytes line) = Text.bytes statement.mnemonic := by
  obtain ⟨before, after, split, span⟩ := scan_span scanned
  have line_bytes : Text.bytes line =
      Text.encoded before ++ (Text.bytes statement.mnemonic ++ Text.encoded after) := by
    rw [Text.bytes, split]
    simp [Text.bytes]
  rw [line_bytes, span, Span.cut, List.drop_left' (Text.length_encoded before)]
  apply List.take_left'
  rw [Text.bytes, Text.length_encoded, Nat.add_sub_cancel_left]

end WhitespaceAsm
