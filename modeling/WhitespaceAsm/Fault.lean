/-! Faults: what can go wrong when files are opened, read and written. -/
namespace WhitespaceAsm

inductive Fault where
  | notFound
  | permissionDenied
  | notADirectory
  | isADirectory
  | nameTooLong
  | nulInPath
  | noSpace
  | noDevice
  | interrupted
  | invalidData
  | timedOut
  | unexpectedEnd
  /-- A sink has no room left and says so. -/
  | sinkFull
  /-- A sink accepts no more bytes without saying why. -/
  | writeZero
  deriving DecidableEq, Repr

namespace Fault

def kind : Fault → String
  | notFound => "entity not found"
  | permissionDenied => "permission denied"
  | notADirectory => "not a directory"
  | isADirectory => "is a directory"
  | nameTooLong => "invalid filename"
  | nulInPath => "invalid input parameter"
  | noSpace => "no storage space"
  | noDevice => "uncategorized error"
  | interrupted => "operation interrupted"
  | invalidData => "invalid data"
  | timedOut => "timed out"
  | unexpectedEnd => "unexpected end of file"
  | sinkFull => "other error"
  | writeZero => "write zero"

/-- A fault in full, with the number that the system gives it. -/
def text : Fault → String
  | notFound => "No such file or directory (os error 2)"
  | permissionDenied => "Permission denied (os error 13)"
  | notADirectory => "Not a directory (os error 20)"
  | isADirectory => "Is a directory (os error 21)"
  | nameTooLong => "File name too long (os error 36)"
  | nulInPath => "file name contained an unexpected NUL byte"
  | noSpace => "No space left on device (os error 28)"
  | noDevice => "No such device or address (os error 6)"
  | sinkFull => "sink full"
  | writeZero => "failed to write whole buffer"
  | fault => fault.kind

/-- How a line that cannot be read is told. -/
def lineMessage : Fault → String
  | invalidData => "Line contained invalid data. (likely not UTF-8 text)"
  | fault => s!"Encountered unexpected I/O error while trying to read the line: {fault.kind}"

def openMessage : Fault → String
  | notFound => "Couldn't find the file."
  | permissionDenied => "Wasn't allowed to open the file. (insufficient permissions)"
  | fault => s!"Encountered unexpected I/O error while trying to open the file: {fault.kind}"

end Fault

end WhitespaceAsm
