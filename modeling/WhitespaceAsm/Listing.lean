import WhitespaceAsm.Token

/-! Listings: one row for each line that has program text. -/
namespace WhitespaceAsm

structure Row where
  number : Nat
  source : String
  program : String
  deriving DecidableEq, Repr

namespace Row

def padLeft (size : Nat) (text : String) : String :=
  String.ofList (List.replicate (size - text.length) ' ') ++ text

def padRight (size : Nat) (text : String) : String :=
  text ++ String.ofList (List.replicate (size - text.length) ' ')

/-- A row as it is written: the number to the right of five columns, the source to the left of
forty, and the program text made readable. Columns count characters, and what is longer stays whole. -/
def render (row : Row) : String :=
  padLeft 5 (toString row.number) ++ "  " ++ padRight 40 row.source ++ "  " ++
    visible row.program ++ "\n"

end Row

namespace Listing

def render (rows : List Row) : String := rows.foldl (fun text row => text ++ row.render) ""

end Listing

end WhitespaceAsm
