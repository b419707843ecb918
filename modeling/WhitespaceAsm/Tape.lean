import WhitespaceAsm.Text

/-! Tapes: bytes put together from many writes. Adding to a tape takes no longer than the added bytes
are long, however much is on it. A tape is looked at through `content`. -/
namespace WhitespaceAsm

structure Tape where
  /-- The writes, the latest first. -/
  writes : List Bytes
  size : Nat
  size_eq : size = writes.flatten.length
  deriving DecidableEq, Repr

namespace Tape

def empty : Tape := ⟨[], 0, rfl⟩

def push (tape : Tape) (bytes : Bytes) : Tape :=
  ⟨bytes :: tape.writes, bytes.length + tape.size, by simp [tape.size_eq]⟩

/-- The bytes in the order in which they were added. -/
def content (tape : Tape) : Bytes := tape.writes.reverse.flatten

@[simp] theorem content_empty : empty.content = [] := rfl

@[simp] theorem content_push (tape : Tape) (bytes : Bytes) :
    (tape.push bytes).content = tape.content ++ bytes := by
  simp [content, push]

@[simp] theorem length_content (tape : Tape) : tape.content.length = tape.size := by
  simp only [content, tape.size_eq, List.length_flatten, List.map_reverse, List.sum_reverse]

end Tape

end WhitespaceAsm
