import WhitespaceAsm.Fault
import WhitespaceAsm.Text

/-! Deliveries: how the bytes of a source arrive, piece by piece and with faults in between, and the
lines that they make up. -/
namespace WhitespaceAsm

inductive Delivery where
  /-- What one read gives. A read without bytes would be the end of the source, so an empty piece stands
  for no read at all. -/
  | piece (content : Bytes)
  | failure (fault : Fault)
  deriving DecidableEq, Repr

namespace Delivery

/-- The bytes and faults of a delivery one by one. An interrupted read is tried again, so it
leaves no trace. -/
def events : Delivery → List (Except Fault UInt8)
  | piece content => content.map .ok
  | failure .interrupted => []
  | failure fault => [.error fault]

inductive Stretch where
  | line (content : Bytes) (ended : Bool)
  | broken (fault : Fault)
  deriving DecidableEq, Repr

/-- Puts an event before the stretches after it. A byte joins the line that follows; what was read
of a line before a fault is lost with it. -/
def Stretch.extend (event : Except Fault UInt8) (later : List Stretch) : List Stretch :=
  match event, later with
  | .error fault, _ => .broken fault :: later
  | .ok byte, [] => if byte = 10 then [.line [] true] else [.line [byte] false]
  | .ok byte, .line content ended :: rest =>
    if byte = 10 then .line [] true :: later else .line (byte :: content) ended :: rest
  | .ok byte, .broken _ :: _ => if byte = 10 then .line [] true :: later else later

def stretches (deliveries : List Delivery) : List Stretch :=
  (deliveries.flatMap events).foldr Stretch.extend []

/-- Takes one carriage return off the end of a line. -/
def dropReturn (content : Bytes) : Bytes :=
  if content.getLast? = some 13 then content.dropLast else content

/-- What is read of a stretch. A line feed takes a carriage return before it along. -/
def Stretch.read : Stretch → Except Fault Bytes
  | .line content ended => .ok (if ended then dropReturn content else content)
  | .broken fault => .error fault

/-- The lines of a source in order, a fault standing for the line that it breaks. -/
def lines (deliveries : List Delivery) : List (Except Fault Bytes) :=
  (stretches deliveries).map Stretch.read

end Delivery

end WhitespaceAsm
