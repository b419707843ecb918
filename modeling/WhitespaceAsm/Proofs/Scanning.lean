import WhitespaceAsm.Proofs.Words

/-! Scanning, seen from both of its ends. The lexemes of a line are those that longest match gives for
the rules, and no others; and the statement that is glued together from them is the one that can be
read off the line without lexemes: cut off the comment, split at separators, count bytes. -/
namespace WhitespaceAsm

theorem isSeparator_iff {c : Char} :
    isSeparator c = true ↔ c ∈ [' ', '\t', '\r', '\n', '\x0B', '\x0C'] := by
  simp [isSeparator, or_assoc]

namespace Lexeme

/-- The characters that a rule matches. There is no rule for stray ones. -/
def Kind.Matches : Kind → List Char → Prop
  | .comment, cs => ∃ body, cs = '/' :: '/' :: body ∧ '\n' ∉ body
  | .text, cs => cs = ['/'] ∨ cs ≠ [] ∧ ∀ c ∈ cs, isPlain c = true
  | .gap, cs => cs ≠ [] ∧ ∀ c ∈ cs, isSeparator c = true
  | .stray, _ => False

/-- A rule matches this text at the start of a line, and whatever else a rule matches there is
shorter. -/
def Longest (kind : Kind) (text line : List Char) : Prop :=
  text <+: line ∧ kind.Matches text ∧
    ∀ other start, start <+: line → other.Matches start →
      other = kind ∧ start = text ∨ start.length < text.length

inductive ByLongestMatch : Nat → List Char → List Lexeme → Prop
  | nil (start : Nat) : ByLongestMatch start [] []
  | cons {start : Nat} {line text rest : List Char} {kind : Kind} {later : List Lexeme}
      (cut : line = text ++ rest) (best : Longest kind text line)
      (next : ByLongestMatch (start + Text.width text) rest later) :
      ByLongestMatch start line (⟨kind, text, start⟩ :: later)

theorem Kind.Matches.ne_nil {kind : Kind} {cs : List Char} (found : kind.Matches cs) : cs ≠ [] := by
  rintro rfl
  cases kind with
  | comment =>
    obtain ⟨body, empty, _⟩ := found
    contradiction
  | text =>
    rcases found with slash | ⟨some, _⟩
    · contradiction
    · exact some rfl
  | gap => exact found.1 rfl
  | stray => exact False.elim found

theorem Longest.unique {one two : Kind} {first second line : List Char}
    (best : Longest one first line) (other : Longest two second line) :
    one = two ∧ first = second := by
  rcases other.2.2 one first best.1 best.2.1 with same | shorter
  · exact same
  · rcases best.2.2 two second other.1 other.2.1 with ⟨kinds, texts⟩ | longer
    · exact ⟨kinds.symm, texts.symm⟩
    · omega

theorem ByLongestMatch.unique {start : Nat} {line : List Char} {a b : List Lexeme}
    (first : ByLongestMatch start line a) (second : ByLongestMatch start line b) : a = b := by
  induction first generalizing b with
  | nil start =>
    cases second with
    | nil => rfl
    | cons cut best next => exact absurd (List.prefix_nil.mp best.1) best.2.1.ne_nil
  | @cons start line text rest kind later cut best next ih =>
    cases second with
    | nil => exact absurd (List.prefix_nil.mp best.1) best.2.1.ne_nil
    | @cons _ _ _ rest' _ later' cut' best' next' =>
      obtain ⟨rfl, rfl⟩ := best.unique best'
      have same : rest' = rest := List.append_cancel_left (cut'.symm.trans cut)
      rw [ih (same ▸ next')]

theorem eq_or_shorter {start text : List Char} (front : start <+: text) :
    start = text ∨ start.length < text.length := by
  rcases Nat.lt_or_eq_of_le front.length_le with shorter | same
  · exact .inr shorter
  · exact .inl (front.eq_of_length same)

/- A start whose characters are all of one class reaches no further than the stretch of them. -/
theorem within_stretch {p : Char → Bool} {c : Char} {start rest : List Char} (first : p c = true)
    (front : start <+: c :: rest) (all : ∀ d ∈ start, p d = true) :
    start = c :: rest.takeWhile p ∨ start.length < (c :: rest.takeWhile p).length := by
  apply eq_or_shorter
  obtain ⟨after, whole⟩ := front
  rw [← List.takeWhile_cons_of_pos first, ← whole, List.takeWhile_append_of_pos all]
  exact List.prefix_append _ _

theorem stretch_starts (p : Char → Bool) (c : Char) (rest : List Char) :
    c :: rest.takeWhile p <+: c :: rest :=
  List.prefix_cons_inj c |>.mpr (List.takeWhile_prefix p)

theorem Kind.Matches.first_mem {kind : Kind} {c : Char} {start rest : List Char}
    (found : kind.Matches start) (front : start <+: c :: rest) : c ∈ start := by
  obtain ⟨d, later, rfl⟩ := List.exists_cons_of_ne_nil found.ne_nil
  obtain ⟨rfl, _⟩ := List.cons_prefix_cons.mp front
  exact List.mem_cons_self

theorem Kind.Matches.starts_slash {c : Char} {start rest : List Char}
    (found : Kind.comment.Matches start) (front : start <+: c :: rest) :
    c = '/' ∧ rest.head? = some '/' := by
  obtain ⟨body, rfl, _⟩ := found
  obtain ⟨rfl, second⟩ := List.cons_prefix_cons.mp front
  obtain ⟨after, rfl⟩ := second
  exact ⟨rfl, rfl⟩

theorem longest_match_gap {c : Char} (gap : isSeparator c = true) (rest : List Char) :
    Longest .gap (c :: rest.takeWhile isSeparator) (c :: rest) := by
  have slash : c ≠ '/' := by
    rintro rfl
    contradiction
  have plain : isPlain c = false := by simp [isPlain, gap]
  refine ⟨stretch_starts isSeparator c rest, ⟨by simp, Statement.forall_cons_takeWhile gap rest⟩, ?_⟩
  intro other start front found
  have head := found.first_mem front
  cases other with
  | comment => exact absurd (Kind.Matches.starts_slash found front).1 slash
  | text =>
    rcases found with rfl | ⟨_, all⟩
    · exact absurd (List.mem_singleton.mp head) slash
    · simp [all c head] at plain
  | gap =>
    rcases within_stretch gap front found.2 with same | shorter
    · exact .inl ⟨rfl, same⟩
    · exact .inr shorter
  | stray => exact False.elim found

theorem longest_match_plain {c : Char} (plain : isPlain c = true) (rest : List Char) :
    Longest .text (c :: rest.takeWhile isPlain) (c :: rest) := by
  have letter : isSeparator c = false ∧ c ≠ '/' := by simpa [isPlain] using plain
  refine ⟨stretch_starts isPlain c rest, .inr ⟨by simp, Statement.forall_cons_takeWhile plain rest⟩, ?_⟩
  intro other start front found
  have head := found.first_mem front
  cases other with
  | comment => exact absurd (Kind.Matches.starts_slash found front).1 letter.2
  | text =>
    rcases found with rfl | ⟨_, all⟩
    · exact absurd (List.mem_singleton.mp head) letter.2
    · rcases within_stretch plain front all with same | shorter
      · exact .inl ⟨rfl, same⟩
      · exact .inr shorter
  | gap => simp [found.2 c head] at letter
  | stray => exact False.elim found

theorem longest_match_slash {rest : List Char} (single : rest.head? ≠ some '/') :
    Longest .text ['/'] ('/' :: rest) := by
  refine ⟨⟨rest, rfl⟩, .inl rfl, ?_⟩
  intro other start front found
  have head := found.first_mem front
  cases other with
  | comment => exact absurd (Kind.Matches.starts_slash found front).2 single
  | text =>
    rcases found with rfl | ⟨_, all⟩
    · exact .inl ⟨rfl, rfl⟩
    · exact absurd (all '/' head) (by decide)
  | gap => exact absurd (found.2 '/' head) (by decide)
  | stray => exact False.elim found

theorem longest_match_comment (rest : List Char) :
    Longest .comment ('/' :: '/' :: rest.takeWhile (· != '\n')) ('/' :: '/' :: rest) := by
  have feedless : '\n' ∉ rest.takeWhile (· != '\n') := by
    intro member
    have other := List.all_eq_true.mp (List.all_takeWhile (p := (· != '\n')) (l := rest)) _ member
    contradiction
  refine ⟨?_, ⟨_, rfl, feedless⟩, ?_⟩
  · exact List.prefix_cons_inj '/' |>.mpr (stretch_starts _ '/' rest)
  intro other start front found
  have head := found.first_mem front
  cases other with
  | comment =>
    obtain ⟨body, rfl, clear⟩ := found
    have all : ∀ c ∈ '/' :: body, (c != '\n') = true := by
      intro c member
      have other : c ≠ '\n' := by
        rintro rfl
        simp [clear] at member
      simpa using other
    rcases within_stretch (by decide) (List.cons_prefix_cons.mp front).2 all with same | shorter
    · exact .inl ⟨rfl, congrArg ('/' :: ·) same⟩
    · exact .inr (Nat.succ_lt_succ shorter)
  | text =>
    rcases found with rfl | ⟨_, all⟩
    · exact .inr (by simp)
    · exact absurd (all '/' head) (by decide)
  | gap => exact absurd (found.2 '/' head) (by decide)
  | stray => exact False.elim found

theorem split_byLongestMatch (start : Nat) (line : List Char) :
    ByLongestMatch start line (split start line) := by
  -- On what is left of the line after its first lexeme, the cases being those of the longest match.
  match line with
  | [] =>
    rw [split]
    exact .nil start
  | c :: rest =>
    by_cases gap : isSeparator c = true
    · rw [split_stretch (longest_gap gap rest)]
      exact .cons (by simp) (longest_match_gap gap rest) (split_byLongestMatch _ _)
    · by_cases slash : c = '/'
      · subst slash
        by_cases double : rest.head? = some '/'
        · obtain ⟨later, rfl⟩ := List.head?_eq_some_iff.mp double
          have found : longest ('/' :: '/' :: later) =
              (.comment, (('/' :: later).takeWhile (· != '\n')).length + 1) := by
            rw [longest_comment, List.takeWhile_cons_of_pos (by decide), List.length_cons]
          rw [split_stretch found, List.takeWhile_cons_of_pos (by decide)]
          exact .cons (by simp) (longest_match_comment later) (split_byLongestMatch _ _)
        · rw [split_cons (longest_slash double)]
          exact .cons rfl (longest_match_slash double) (split_byLongestMatch _ _)
      · have plain : isPlain c = true := by simp [isPlain, gap, slash]
        rw [split_stretch (longest_plain plain rest)]
        exact .cons (by simp) (longest_match_plain plain rest) (split_byLongestMatch _ _)
termination_by line.length
decreasing_by
  · exact Nat.lt_succ_of_le (List.dropWhile_suffix isSeparator).length_le
  · subst_vars
    exact Nat.lt_succ_of_le (List.dropWhile_suffix (· != '\n')).length_le
  · exact Nat.lt_succ_self _
  · exact Nat.lt_succ_of_le (List.dropWhile_suffix isPlain).length_le

theorem byLongestMatch_iff {start : Nat} {line : List Char} {lexemes : List Lexeme} :
    ByLongestMatch start line lexemes ↔ lexemes = split start line := by
  constructor
  · intro matched
    exact matched.unique (split_byLongestMatch start line)
  · rintro rfl
    exact split_byLongestMatch start line

end Lexeme

namespace Text

theorem width_toList (text : String) : width text.toList = text.utf8ByteSize := by
  have size := congrArg ByteArray.size (toByteArray_bytes text)
  rw [List.size_toByteArray] at size
  rw [← length_encoded]
  exact size

end Text

namespace Statement

/-- The statement of a line, read off without lexemes: its words before the comment, and where the
first of them stands. -/
def plain? (line : String) : Option Statement :=
  match plainWords line.toList with
  | [] => none
  | first :: rest =>
    let start := Text.width ((uncommented line.toList).takeWhile isSeparator)
    some {
      mnemonic := String.ofList first
      parameter := String.ofList (List.intercalate [' '] rest)
      span := ⟨start, start + Text.width first⟩ }

theorem start_glue (word : Word) (later : List Word) :
    ∃ text rest, Word.glue word later = ⟨text, word.start⟩ :: rest := by
  cases later with
  | nil => exact ⟨_, _, rfl⟩
  | cons next rest =>
    rw [Word.glue]
    split
    · exact ⟨_, _, rfl⟩
    · exact ⟨_, _, rfl⟩

theorem locate_first {start : Nat} {text : List Char} {first : Word} {rest : List Word}
    (located : locate start text = first :: rest) :
    first.start = start + Text.width (text.takeWhile isSeparator) := by
  have gap : ∀ c ∈ text.takeWhile isSeparator, isSeparator c = true :=
    List.all_eq_true.mp List.all_takeWhile
  rw [← List.takeWhile_append_dropWhile (p := isSeparator) (l := text), locate_gap gap] at located
  cases left : text.dropWhile isSeparator with
  | nil =>
    rw [left] at located
    contradiction
  | cons c later =>
    have letter : isSeparator c = false := by
      have := List.head?_dropWhile_not isSeparator text
      simpa [left] using this
    rw [left, locate, if_neg (by simp [letter])] at located
    obtain ⟨glued, words, same⟩ := start_glue ⟨[c], start + Text.width (text.takeWhile isSeparator)⟩
      (locate (start + Text.width (text.takeWhile isSeparator) + c.utf8Size) later)
    rw [same] at located
    cases located
    rfl

theorem scan_eq_plain (line : String) : scan line = .ok (plain? line) := by
  rw [scan_eq, plain?, plainWords, ← locate_texts 0]
  cases located : locate 0 (uncommented line.toList) with
  | nil => rfl
  | cons first rest =>
    have place := locate_first located
    rw [Nat.zero_add] at place
    simp only [ofWords, Word.span, List.map_cons, place]

/- Byte offsets in the middle of a character are no positions of the line. -/
theorem span_valid {line : String} {statement : Statement}
    (scanned : scan line = .ok (some statement)) :
    String.Pos.Raw.IsValid line ⟨statement.span.start⟩ ∧
      String.Pos.Raw.IsValid line ⟨statement.span.stop⟩ := by
  obtain ⟨before, after, split, span⟩ := scan_span scanned
  have cut : ∀ front back, line.toList = front ++ back →
      String.Pos.Raw.IsValid line ⟨Text.width front⟩ := by
    intro front back whole
    apply String.Pos.Raw.isValid_iff_exists_append.mpr
    refine ⟨String.ofList front, String.ofList back, ?_, ?_⟩
    · apply String.toList_inj.mp
      simp [whole]
    · have size := Text.width_toList (String.ofList front)
      rw [String.toList_ofList] at size
      rw [size]
      rfl
  rw [span]
  constructor
  · exact cut before _ (by simpa using split)
  · have stop := cut (before ++ statement.mnemonic.toList) after split
    rwa [Text.width_append] at stop

end Statement

/-- Longest match, gluing what touches and stopping at a comment come to the plain reading of a line,
whatever its slashes, separators and wide characters are. No line fails, and the span is a stretch of
whole characters, which are those of the mnemonic. -/
theorem scan_reads_plainly (line : String) :
    (∀ c, isSeparator c = true ↔ c ∈ [' ', '\t', '\r', '\n', '\x0B', '\x0C']) ∧
    (∀ lexemes, Lexeme.ByLongestMatch 0 line.toList lexemes ↔
      lexemes = Lexeme.split 0 line.toList) ∧
    Statement.scan line = .ok (Statement.plain? line) ∧
    (∀ error, Statement.scan line ≠ .error error) ∧
    ∀ statement, Statement.scan line = .ok (some statement) →
      String.Pos.Raw.IsValid line ⟨statement.span.start⟩ ∧
      String.Pos.Raw.IsValid line ⟨statement.span.stop⟩ ∧
      statement.span.cut (Text.bytes line) = Text.bytes statement.mnemonic := by
  refine ⟨fun _ => isSeparator_iff, fun _ => Lexeme.byLongestMatch_iff, Statement.scan_eq_plain line,
    ?_, ?_⟩
  · intro error failed
    rw [Statement.scan_eq_plain] at failed
    contradiction
  · intro statement scanned
    obtain ⟨start, stop⟩ := Statement.span_valid scanned
    exact ⟨start, stop, Statement.cut_span scanned⟩

end WhitespaceAsm
