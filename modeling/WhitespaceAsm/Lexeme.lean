import WhitespaceAsm.Text

/-! Lexemes of a source line. At each place the rule that reaches furthest wins. -/
namespace WhitespaceAsm

/-- Byte offsets into a line, the first one inside and the last one outside. -/
structure Span where
  start : Nat
  stop : Nat
  deriving DecidableEq, Repr

/-- The characters that separate words. Other blanks are part of a word. -/
def isSeparator (c : Char) : Bool :=
  c == ' ' || c == '\t' || c == '\r' || c == '\n' || c == '\x0B' || c == '\x0C'

def isPlain (c : Char) : Bool := !isSeparator c && c != '/'

namespace Lexeme

inductive Kind where
  /-- Two slashes and what follows on the line. -/
  | comment
  /-- A stretch of plain characters, or one slash. -/
  | text
  /-- A stretch of separators. -/
  | gap
  /-- A character that no rule takes. -/
  | stray
  deriving DecidableEq, Repr

/-- How many characters a rule takes at the start, zero where it does not apply. -/
def Kind.reach : Kind → List Char → Nat
  | .comment, '/' :: '/' :: rest => 2 + (rest.takeWhile (· != '\n')).length
  | .comment, _ => 0
  | .text, '/' :: _ => 1
  | .text, cs => (cs.takeWhile isPlain).length
  | .gap, cs => (cs.takeWhile isSeparator).length
  | .stray, _ => 0

/-- The kind that reaches furthest and how far; `stray` where no rule applies. -/
def longest (cs : List Char) : Kind × Nat :=
  [Kind.comment, .text, .gap].foldl
    (fun best kind => if best.2 < kind.reach cs then (kind, kind.reach cs) else best) (.stray, 0)

end Lexeme

structure Lexeme where
  kind : Lexeme.Kind
  text : List Char
  start : Nat
  deriving DecidableEq, Repr

namespace Lexeme

def span (lexeme : Lexeme) : Span := ⟨lexeme.start, lexeme.start + Text.width lexeme.text⟩

/-- Cuts characters into lexemes, the first one at the given offset. At least one character is
taken at a time. -/
def split (start : Nat) : List Char → List Lexeme
  | [] => []
  | c :: rest =>
    let found := longest (c :: rest)
    let text := c :: rest.take (found.2 - 1)
    ⟨found.1, text, start⟩ :: split (start + Text.width text) (rest.drop (found.2 - 1))
termination_by cs => cs.length

end Lexeme

end WhitespaceAsm
