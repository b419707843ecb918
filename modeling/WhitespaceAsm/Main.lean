import WhitespaceAsm.Session

/-! The command line program. It looks at the files that the arguments name, runs a session on what it
saw, and then writes the files that the session changed. -/
namespace WhitespaceAsm.Program

def observe (path : String) : IO (Option Node) := do
  let place := (← IO.currentDir) / path
  if ← place.isDir then return some .directory
  if !(← place.pathExists) then return none
  match (← place.metadata).type with
  | .file =>
    try return some (.file (← IO.FS.readBinFile place).toList)
    catch _ => return some .locked
  | _ => return some (.stream [])

/-- Adds what stands at a path, and at each directory on the way, to the world known so far. -/
def look (known : World) (text : String) : IO World := do
  match Path.parse text with
  | .error _ => return known
  | .ok path =>
    let mut world := known
    for depth in List.range path.names.length do
      let names := path.names.take (depth + 1)
      let start := if path.absolute then "/" else ""
      match world.walk (world.origin path) names with
      | .error _ => pure ()
      | .ok location =>
        if (world.node? location).isNone then
          if let some node ← observe (start ++ "/".intercalate names) then
            world := world.put location node
    return world

def paths : Request → List String
  | .assemble options => options.inputs ++ options.output.toList ++ options.listing.toList
  | _ => []

def readsStandardInput : Request → Bool
  | .assemble options => options.inputs.isEmpty
  | _ => false

/-- Writes the file at a path if the session changed it. -/
def save (before after : World) (path : String) : IO Unit :=
  match before.find path, after.find path with
  | .ok old, .ok (.file content) => unless old = .file content do
      IO.FS.writeBinFile path content.toByteArray
  | .error _, .ok (.file content) => IO.FS.writeBinFile path content.toByteArray
  | _, .ok (.stream received) => unless received.isEmpty do
      IO.FS.writeBinFile path received.toByteArray
  | _, _ => pure ()

partial def readAll (stream : IO.FS.Stream) (content : ByteArray) : IO ByteArray := do
  let piece ← stream.read 65536
  if piece.isEmpty then return content else readAll stream (content ++ piece)

def usage : List String := [
  "Usage: wsasm [-v] [-o OUTPATH] [-l LISTPATH] [--] [INPATHS]...",
  "",
  "Turns mnemonics into a Whitespace program. Each line holds one instruction and an optional",
  "parameter; '//' starts a comment. Lines that fail to assemble are told and left out.",
  "",
  "  -v, --verbose          tell more while assembling",
  "  -o, --out OUTPATH      write the program to a file instead of standard output",
  "  -l, --list LISTPATH    write a listing",
  "  -h, --help             print this text",
  "  -V, --version          print the version"]

def report (session : Session) : IO UInt32 := do
  let standardOutput ← IO.getStdout
  standardOutput.write session.world.output.content.toByteArray
  standardOutput.flush
  (← IO.getStderr).write session.world.error.content.toByteArray
  match session.ending with
  | .help =>
    usage.forM IO.println
    return 0
  | .usageError =>
    usage.forM IO.eprintln
    return 2
  | .finished exit => return exit.toUInt32

def run (arguments : List String) : IO UInt32 := do
  let request := Request.ofArguments arguments
  let here := ((← IO.currentDir).toString.splitOn "/").filter (· != "")
  let before ← (paths request).foldlM look (World.fresh here)
  let standardInput ←
    if readsStandardInput request then readAll (← IO.getStdin) ByteArray.empty
    else pure ByteArray.empty
  let session := Session.run arguments standardInput.toList before
  for path in paths request do
    save before session.world path
  report session

end WhitespaceAsm.Program

def main (arguments : List String) : IO UInt32 := WhitespaceAsm.Program.run arguments
