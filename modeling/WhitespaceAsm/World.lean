import WhitespaceAsm.Fault
import WhitespaceAsm.Tape

/-! The world around a session: a tree of files, and the two streams that the program writes to. Paths
lead through the tree name by name, and each name but the last has to be an existing directory.
The streams have places in the tree as well, so a file that is written may be one of them.

Two things are left out. A file may be both read and written or neither of them, never just one. And
the two streams take whatever is sent to them, while in fact they might be closed or full. -/
namespace WhitespaceAsm

abbrev Location := List String

structure Path where
  absolute : Bool
  names : List String
  /-- It ends in a slash, so it can only name a directory. -/
  trailing : Bool
  deriving DecidableEq, Repr

/-- Takes a path apart. A path with a NUL character never reaches the system, which in turn knows
limits of its own. -/
def Path.parse (text : String) : Except Fault Path :=
  if text.toList.contains '\x00' then .error .nulInPath
  else if 4096 ≤ text.utf8ByteSize then .error .nameTooLong
  else if text.isEmpty then .error .notFound
  else .ok {
    absolute := text.toList.head? == some '/'
    names := ((text.toList.splitOn '/').filter (!·.isEmpty)).map String.ofList
    trailing := text.toList.getLast? == some '/' }

inductive Channel where
  | output
  | error
  deriving DecidableEq, Repr

inductive Node where
  | directory
  | file (content : Bytes)
  /-- A regular file that may neither be read nor written. -/
  | locked
  /-- A device that takes every write. There is nothing to read from it. -/
  | stream (received : Bytes)
  /-- A device that refuses every write. -/
  | full
  /-- A device with nothing connected to it, which cannot be opened. -/
  | detached
  /-- One of the program's own streams. -/
  | channel (channel : Channel)
  deriving DecidableEq, Repr

structure World where
  /-- The working directory. -/
  here : Location
  node? : Location → Option Node
  output : Tape
  error : Tape

namespace World

def put (world : World) (location : Location) (node : Node) : World :=
  { world with node? := fun other => if other = location then some node else world.node? other }

/-- Writes to one of the program's streams, which always succeeds. -/
def send (world : World) (channel : Channel) (bytes : Bytes) : World :=
  match channel with
  | .output => { world with output := world.output.push bytes }
  | .error => { world with error := world.error.push bytes }

/-- Prints a line on standard error. Like all that is sent to a stream it arrives. -/
def say (world : World) (line : String) : World := world.send .error (Text.bytes (line ++ "\n"))

def origin (world : World) (path : Path) : Location := if path.absolute then [] else world.here

def enter (world : World) (location : Location) : Except Fault Unit :=
  match world.node? location with
  | some .directory => .ok ()
  | some _ => .error .notADirectory
  | none => .error .notFound

def child (world : World) (location : Location) (name : String) : Except Fault Location := do
  world.enter location
  if name = "." then return location
  else if name = ".." then return location.dropLast
  else if 255 < name.utf8ByteSize then throw .nameTooLong
  else return location ++ [name]

def walk (world : World) (location : Location) (names : List String) : Except Fault Location :=
  names.foldlM world.child location

def find (world : World) (text : String) : Except Fault Node := do
  let path ← Path.parse text
  let location ← world.walk (world.origin path) path.names
  match world.node? location, path.trailing with
  | none, _ => throw .notFound
  | some .directory, _ => return .directory
  | some _, true => throw .notADirectory
  | some node, false => return node

def isRegular (world : World) (text : String) : Bool :=
  match world.find text with
  | .ok (.file _) | .ok .locked => true
  | _ => false

/-- The whole of a file. That a directory has none is a fault here; reading one line after the other
would never get to the end of it, as every read fails. -/
def read (world : World) (text : String) : Except Fault Bytes := do
  match ← world.find text with
  | .directory => throw .isADirectory
  | .file content => return content
  | .locked => throw .permissionDenied
  | .detached => throw .noDevice
  | .stream _ | .full | .channel _ => return []

/-- Opens a place for writing: a file is emptied, and made if there is none. -/
def openAt (world : World) (location : Location) : Except Fault World :=
  match world.node? location with
  | none | some (.file _) => .ok (world.put location (.file []))
  | some .directory => .error .isADirectory
  | some .locked => .error .permissionDenied
  | some .detached => .error .noDevice
  | some (.stream _) | some .full | some (.channel _) => .ok world

def create (world : World) (text : String) : Except Fault (World × Location) := do
  let path ← Path.parse text
  match path.names.getLast? with
  | none => throw .isADirectory
  | some name =>
    let parent ← world.walk (world.origin path) path.names.dropLast
    world.enter parent
    -- These can only name directories, and no directory is opened for writing.
    if path.trailing || name == "." || name == ".." then throw .isADirectory
    let location ← world.child parent name
    return (← world.openAt location, location)

/-- Writes at the end of an opened place. Writing nothing never fails. -/
def append (world : World) (location : Location) (content : Bytes) : World × Option Fault :=
  if content.isEmpty then (world, none)
  else
    match world.node? location with
    | some (.file old) => (world.put location (.file (old ++ content)), none)
    | some (.stream old) => (world.put location (.stream (old ++ content)), none)
    | some (.channel channel) => (world.send channel content, none)
    | some .full => (world, some .noSpace)
    | some .directory => (world, some .isADirectory)
    | some .locked => (world, some .permissionDenied)
    | some .detached => (world, some .noDevice)
    | none => (world, some .notFound)

def write (world : World) (text : String) (content : Bytes) : World × Option Fault :=
  match world.create text with
  | .ok (opened, location) => opened.append location content
  | .error fault => (world, some fault)

/-- Follows names and makes each directory that is missing, as far as the way is open. -/
def makeDirectories (world : World) (location : Location) : List String → World
  | [] => world
  | name :: rest =>
    match world.child location name with
    | .error _ => world
    | .ok place =>
      match world.node? place with
      | none => (world.put place .directory).makeDirectories place rest
      | some _ => world.makeDirectories place rest

def makeDirectory (world : World) (text : String) : World :=
  match Path.parse text with
  | .error _ => world
  | .ok path => world.makeDirectories (world.origin path) path.names

def makeFile (world : World) (text : String) (content : Bytes) : World :=
  match Path.parse text with
  | .error _ => world
  | .ok path =>
    ((world.makeDirectories (world.origin path) path.names.dropLast).write text content).1

/-- The devices of a usual system, told by what becomes of a write. Reading is told right of `null` and
`tty` alone: `zero`, `random`, `urandom` and `full` have no end of bytes, and what the places of the
standard streams would give is left out. They are here as outputs and listings, not as inputs. -/
def devices : List (Location × Node) := [
  (["dev", "null"], .stream []),
  (["dev", "zero"], .stream []),
  (["dev", "random"], .stream []),
  (["dev", "urandom"], .stream []),
  (["dev", "full"], .full),
  (["dev", "tty"], .detached),
  (["dev", "stdin"], .stream []),
  (["dev", "stdout"], .channel .output),
  (["dev", "stderr"], .channel .error),
  (["dev", "fd", "0"], .stream []),
  (["dev", "fd", "1"], .channel .output),
  (["dev", "fd", "2"], .channel .error),
  (["proc", "self", "fd", "0"], .stream []),
  (["proc", "self", "fd", "1"], .channel .output),
  (["proc", "self", "fd", "2"], .channel .error)]

def directories : List Location :=
  [["bin"], ["dev", "pts"], ["dev", "shm"], ["etc"], ["home"], ["lib"], ["opt"], ["root"], ["run"],
    ["sbin"], ["sys"], ["tmp"], ["usr"], ["var"]]

def fresh (here : Location) : World :=
  let root : World :=
    ⟨here, fun location => if location = [] then some .directory else none, .empty, .empty⟩
  let furnished :=
    (directories ++ [here]).foldl (fun world place => world.makeDirectories [] place) root
  devices.foldl
    (fun world (place, node) => (world.makeDirectories [] place.dropLast).put place node) furnished

end World

end WhitespaceAsm
