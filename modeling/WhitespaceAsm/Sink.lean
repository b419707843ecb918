import WhitespaceAsm.Fault
import WhitespaceAsm.Tape

/-! Sinks: where program bytes go. -/
namespace WhitespaceAsm

class Sink (σ : Type) where
  /-- Writes bytes and hands the sink on. A write may fail, perhaps after part of the bytes went
  through. -/
  write : σ → Bytes → σ × Option Fault
  /-- Tells the user what is going on, if there is somebody to tell. -/
  note : σ → String → σ

/-- A sink in memory. With a limit it keeps the bytes that still fit. -/
structure Store where
  kept : Tape
  room : Option Nat
  whenFull : Fault
  deriving DecidableEq, Repr

namespace Store

def unlimited : Store := ⟨.empty, none, .sinkFull⟩

def content (store : Store) : Bytes := store.kept.content

/-- Keeps as many bytes as there is room for and fails if some are left over. -/
def write (store : Store) (bytes : Bytes) : Store × Option Fault :=
  match store.room with
  | none => ({ store with kept := store.kept.push bytes }, none)
  | some room =>
    ({ store with kept := store.kept.push (bytes.take room), room := some (room - bytes.length) },
      if room < bytes.length then some store.whenFull else none)

instance : Sink Store := ⟨write, fun store _ => store⟩

end Store

end WhitespaceAsm
