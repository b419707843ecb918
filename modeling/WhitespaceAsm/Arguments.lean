import WhitespaceAsm.Assembly

/-! Command line arguments. Options come first, short ones may be joined (`-vo path`), and values may
be attached (`-opath`, `-o=path`, `--out=path`). From the first argument that is no option on, all
are input paths; `--` ends the options, too. -/
namespace WhitespaceAsm

inductive Request where
  | help
  | version
  | invalid
  | assemble (options : Options)
  deriving DecidableEq, Repr

namespace Arguments

inductive Slot where
  | output
  | listing
  deriving DecidableEq, Repr

inductive Mark where
  | verbose
  | help
  | version
  | path (slot : Slot) (attached : Option String)
  | unknown
  deriving DecidableEq, Repr

/-- The value attached to a short option; an equals sign before it is not part of it. -/
def attached? : List Char → Option String
  | [] => none
  | '=' :: value => some (String.ofList value)
  | value => some (String.ofList value)

def shortMarks : List Char → List Mark
  | [] => []
  | 'v' :: rest => .verbose :: shortMarks rest
  | 'h' :: rest => .help :: shortMarks rest
  | 'V' :: rest => .version :: shortMarks rest
  | 'o' :: rest => [.path .output (attached? rest)]
  | 'l' :: rest => [.path .listing (attached? rest)]
  | _ :: _ => [.unknown]

/-- The option in an argument such as `--out=path`. Only paths can be attached. -/
def longMark (body : List Char) : Mark :=
  let name := String.ofList (body.takeWhile (· != '='))
  let value := ((body.dropWhile (· != '=')).tail?).map String.ofList
  match name, value with
  | "verbose", none => .verbose
  | "help", none => .help
  | "version", none => .version
  | "out", value => .path .output value
  | "list", value => .path .listing value
  | _, _ => .unknown

inductive Argument where
  | options (marks : List Mark)
  | endOfOptions
  | input
  deriving DecidableEq, Repr

/-- What an argument is while options are still expected. A lone dash is an input. -/
def classify (text : String) : Argument :=
  match text.toList with
  | ['-', '-'] => .endOfOptions
  | '-' :: '-' :: body => .options [longMark body]
  | '-' :: c :: rest => .options (shortMarks (c :: rest))
  | _ => .input

/-- The options given so far, a path option that lacks its value included. -/
structure Draft where
  verbose : Nat := 0
  output : List (Option String) := []
  listing : List (Option String) := []
  deriving DecidableEq, Repr

namespace Draft

def give (draft : Draft) (slot : Slot) (value : Option String) : Draft :=
  match slot with
  | .output => { draft with output := value :: draft.output }
  | .listing => { draft with listing := value :: draft.listing }

/-- The path of an option that is given at most once. -/
def single? : List (Option String) → Option (Option String)
  | [] => some none
  | [some value] => some (some value)
  | _ => none

/-- The request at the end of the arguments: no option twice, none without its value, and no empty
input path. -/
def conclude (draft : Draft) (inputs : List String) : Request :=
  match single? draft.output, single? draft.listing with
  | some output, some listing =>
    if draft.verbose ≤ 1 && !inputs.contains "" then
      .assemble ⟨draft.verbose == 1, output, listing, inputs⟩
    else .invalid
  | _, _ => .invalid

/-- Takes note of the options of one argument in order. It ends with a request where one is decided
at once, or with the option that still waits for a value. -/
def take (draft : Draft) : List Mark → Except Request (Draft × Option Slot)
  | [] => .ok (draft, none)
  | .verbose :: rest => { draft with verbose := draft.verbose + 1 }.take rest
  | .help :: _ => .error .help
  | .version :: _ => .error .version
  | .unknown :: _ => .error .invalid
  | .path _ (some "") :: _ => .error .invalid
  | .path slot (some value) :: rest => (draft.give slot (some value)).take rest
  | .path slot none :: _ => .ok (draft, some slot)

end Draft

def isValue (text : String) : Bool := text == "-" || text.toList.head? != some '-'

/-- Reads arguments one by one. Help, version and what is plainly wrong decide at once; a repeated
option or one without its value is found only at the end. -/
def read (draft : Draft) : List String → Request
  | [] => draft.conclude []
  | argument :: rest =>
    match classify argument with
    | .input => draft.conclude (argument :: rest)
    | .endOfOptions => draft.conclude rest
    | .options marks =>
      match draft.take marks with
      | .error request => request
      | .ok (draft, none) => read draft rest
      | .ok (draft, some slot) =>
        match rest with
        | [] => (draft.give slot none).conclude []
        | value :: others =>
          if value == "" then .invalid
          else if isValue value then read (draft.give slot (some value)) others
          else read (draft.give slot none) (value :: others)
termination_by arguments => arguments.length

end Arguments

def Request.ofArguments (arguments : List String) : Request := Arguments.read {} arguments

end WhitespaceAsm
