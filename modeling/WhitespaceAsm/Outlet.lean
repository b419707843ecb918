import WhitespaceAsm.Sink
import WhitespaceAsm.World

/-! The outlet of an assembly: standard output, or a file behind a buffer. Notes go to standard error
at once, so they may overtake bytes that wait in the buffer. -/
namespace WhitespaceAsm

inductive Outlet.Target where
  /-- Standard output, which takes every byte: that writing there may fail as well is left out. -/
  | standard
  /-- An opened file, and the bytes that still wait in the buffer. -/
  | file (location : Location) (pending : Tape)
  deriving DecidableEq, Repr

structure Outlet where
  world : World
  target : Outlet.Target

namespace Outlet

def bufferSize : Nat := 8192

/-- Hands waiting bytes to the file; after a fault they wait on. -/
def flush (outlet : Outlet) : Outlet × Option Fault :=
  match outlet.target with
  | .standard => (outlet, none)
  | .file location pending =>
    match outlet.world.append location pending.content with
    | (world, none) => (⟨world, .file location .empty⟩, none)
    | (world, some fault) => (⟨world, .file location pending⟩, some fault)

/-- Takes bytes for which the buffer has room, or that are too many for any buffer. -/
def accept (outlet : Outlet) (bytes : Bytes) : Outlet × Option Fault :=
  match outlet.target with
  | .standard => ({ outlet with world := outlet.world.send .output bytes }, none)
  | .file location pending =>
    if bufferSize ≤ bytes.length then
      -- Nothing waits in the buffer then, so that no byte is overtaken.
      let (world, fault) := outlet.world.append location bytes
      ({ outlet with world := world }, fault)
    else
      ({ outlet with target := .file location (pending.push bytes) }, none)

def overflows (outlet : Outlet) (bytes : Bytes) : Bool :=
  match outlet.target with
  | .standard => false
  | .file _ pending => bufferSize < pending.size + bytes.length

def write (outlet : Outlet) (bytes : Bytes) : Outlet × Option Fault :=
  if outlet.overflows bytes then
    match outlet.flush with
    | (flushed, none) => flushed.accept bytes
    | (flushed, some fault) => (flushed, some fault)
  else
    outlet.accept bytes

def note (outlet : Outlet) (text : String) : Outlet :=
  { outlet with world := outlet.world.say s!"INFO: {text}" }

instance : Sink Outlet := ⟨write, note⟩

end Outlet

end WhitespaceAsm
