import WhitespaceAsm.Arguments

/-! A session of the program: from arguments, standard input and a world to the exit status and the
world afterwards, with what was printed there. -/
namespace WhitespaceAsm

inductive Ending where
  | help
  | usageError
  | finished (exit : Nat)
  deriving DecidableEq, Repr

structure Session where
  ending : Ending
  world : World

namespace Session

def versionLine : String := "wsasm 0.1.0"

def closing (options : Options) (run : Run Outlet) : List String :=
  let warnings := run.diagnostics.toList.countP fun d => !d.isError
  let errors := run.diagnostics.toList.countP Diagnostic.isError
  if run.succeeded then
    if options.verbose then
      s!"INFO: Successfully assembled, with {warnings} warnings." ::
        ((options.output.map fun path => s!"INFO: The program was output at '{path}'.").toList ++
          (options.listing.map fun path =>
            s!"INFO: The listing file was output at '{path}'.").toList)
    else []
  else [s!"ERR: Failed to assemble, with {errors} errors and {warnings} warnings."]

def messages (options : Options) (run : Run Outlet) : List String :=
  run.diagnostics.toList.map Diagnostic.render ++ closing options run

/-- Assembles, provided that all inputs are existing regular files. -/
def ofOptions (options : Options) (standardInput : Bytes) (world : World) : Session :=
  if options.inputs.all world.isRegular then
    let run := assemble options standardInput world
    let exit := if run.succeeded then 0 else 2
    ⟨.finished exit, (messages options run).foldl World.say run.sink.world⟩
  else
    ⟨.finished 1, world.say "ERR: All paths given as inputs must point to existing files."⟩

def run (arguments : List String) (standardInput : Bytes) (world : World) : Session :=
  match Request.ofArguments arguments with
  | .help => ⟨.help, world⟩
  | .version => ⟨.finished 0, world.send .output (Text.bytes (versionLine ++ "\n"))⟩
  | .invalid => ⟨.usageError, world⟩
  | .assemble options => ofOptions options standardInput world

end Session

end WhitespaceAsm
