import WhitespaceAsm.Command
import WhitespaceAsm.Lexeme

/-! Statements: source lines cut into a mnemonic and its parameter. Everything from `//` on is a
comment. Pieces of text that touch form one word, so `a/b` is one word and `a//b` is just `a`. -/
namespace WhitespaceAsm

structure Statement extends Command where
  span : Span
  deriving DecidableEq, Repr

namespace Statement

structure Error where
  text : String
  span : Span
  deriving DecidableEq, Repr

def Error.message (error : Error) : String := s!"Couldn't lex this text: {error.text}"

structure Word where
  text : List Char
  start : Nat
  deriving DecidableEq, Repr

def Word.span (word : Word) : Span := ⟨word.start, word.start + Text.width word.text⟩

/-- Puts a word before others, and joins it with the next one if they touch. -/
def Word.glue (word : Word) : List Word → List Word
  | next :: rest =>
    if word.span.stop = next.start then ⟨word.text ++ next.text, word.start⟩ :: rest
    else word :: next :: rest
  | [] => [word]

/-- The words from a lexeme on, given those after it. A comment hides all that follows. -/
def addLexeme (lexeme : Lexeme) (later : Except Error (List Word)) : Except Error (List Word) :=
  match lexeme.kind with
  | .comment => .ok []
  | .text => later.map (Word.glue ⟨lexeme.text, lexeme.start⟩)
  | .gap => later
  | .stray => .error ⟨String.ofList lexeme.text, lexeme.span⟩

def words (line : List Char) : Except Error (List Word) :=
  (Lexeme.split 0 line).foldr addLexeme (.ok [])

/-- The statement that words make up: the first is the mnemonic, the others are joined by single
spaces. -/
def ofWords : List Word → Option Statement
  | [] => none
  | first :: rest =>
    some {
      mnemonic := String.ofList first.text
      parameter := String.ofList (List.intercalate [' '] (rest.map Word.text))
      span := first.span }

/-- The statement in a line, if it has a word before its comment. -/
def scan (line : String) : Except Error (Option Statement) := (words line.toList).map ofWords

end Statement

end WhitespaceAsm
