import WhitespaceAsm.Token

/-! The 24 primitive instructions of Whitespace with their codes. -/
namespace WhitespaceAsm

inductive Opcode where
  | push
  | duplicate
  | copy
  | swap
  | discard
  | slide
  | add
  | subtract
  | multiply
  | divide
  | modulo
  | store
  | retrieve
  | mark
  | call
  | jump
  | jumpIfZero
  | jumpIfNegative
  | endSubroutine
  | endProgram
  | printChar
  | printNumber
  | readChar
  | readNumber
  deriving DecidableEq, Repr

namespace Opcode

def all : List Opcode :=
  [push, duplicate, copy, swap, discard, slide, add, subtract, multiply, divide, modulo, store,
    retrieve, mark, call, jump, jumpIfZero, jumpIfNegative, endSubroutine, endProgram, printChar,
    printNumber, readChar, readNumber]

def mnemonic : Opcode → String
  | push => "push"
  | duplicate => "duplicate"
  | copy => "copyn"
  | swap => "swap"
  | discard => "discard"
  | slide => "sliden"
  | add => "add"
  | subtract => "sub"
  | multiply => "mult"
  | divide => "div"
  | modulo => "mod"
  | store => "store"
  | retrieve => "retrieve"
  | mark => "mark"
  | call => "call"
  | jump => "jump"
  | jumpIfZero => "branchz"
  | jumpIfNegative => "branchltz"
  | endSubroutine => "return"
  | endProgram => "end"
  | printChar => "printchar"
  | printNumber => "printnum"
  | readChar => "readchar"
  | readNumber => "readnum"

/-- The tokens that name an instruction. No code is the start of another one. -/
def code : Opcode → List Token
  | push => [.space, .space]
  | duplicate => [.space, .lineFeed, .space]
  | copy => [.space, .tab, .space]
  | swap => [.space, .lineFeed, .tab]
  | discard => [.space, .lineFeed, .lineFeed]
  | slide => [.space, .tab, .lineFeed]
  | add => [.tab, .space, .space, .space]
  | subtract => [.tab, .space, .space, .tab]
  | multiply => [.tab, .space, .space, .lineFeed]
  | divide => [.tab, .space, .tab, .space]
  | modulo => [.tab, .space, .tab, .tab]
  | store => [.tab, .tab, .space]
  | retrieve => [.tab, .tab, .tab]
  | mark => [.lineFeed, .space, .space]
  | call => [.lineFeed, .space, .tab]
  | jump => [.lineFeed, .space, .lineFeed]
  | jumpIfZero => [.lineFeed, .tab, .space]
  | jumpIfNegative => [.lineFeed, .tab, .tab]
  | endSubroutine => [.lineFeed, .tab, .lineFeed]
  | endProgram => [.lineFeed, .lineFeed, .lineFeed]
  | printChar => [.tab, .lineFeed, .space, .space]
  | printNumber => [.tab, .lineFeed, .space, .tab]
  | readChar => [.tab, .lineFeed, .tab, .space]
  | readNumber => [.tab, .lineFeed, .tab, .tab]

def takesParameter : Opcode → Bool
  | push | copy | slide | mark | call | jump | jumpIfZero | jumpIfNegative => true
  | _ => false

end Opcode

end WhitespaceAsm
