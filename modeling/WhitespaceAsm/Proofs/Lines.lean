import WhitespaceAsm.Delivery

/-! Lines of deliveries that are put one after the other. Deliveries whose last line is not left open
have as many lines as line ends, and whatever comes after them starts with a new line. -/
namespace WhitespaceAsm.Delivery

def content : Delivery → Bytes
  | piece content => content
  | failure _ => []

def endsLine : Except Fault UInt8 → Bool
  | .ok byte => byte == 10
  | .error _ => true

/-- Nothing was delivered, or the last event ends a line. -/
def Closed (deliveries : List Delivery) : Prop :=
  ∀ event ∈ (deliveries.flatMap events).getLast?, endsLine event = true

instance (deliveries : List Delivery) : Decidable (Closed deliveries) :=
  inferInstanceAs (Decidable (∀ event ∈ (deliveries.flatMap events).getLast?, endsLine event = true))

/-- How many line feeds there are, and faults that end a line. -/
def lineEnds : List Delivery → Nat
  | [] => 0
  | piece content :: rest => content.count 10 + lineEnds rest
  | failure .interrupted :: rest => lineEnds rest
  | failure _ :: rest => lineEnds rest + 1

theorem lineEnds_eq (deliveries : List Delivery) :
    lineEnds deliveries = (deliveries.flatMap events).countP endsLine := by
  fun_induction lineEnds deliveries with
  | case1 => rfl
  | case2 content rest ih =>
    have feeds : (events (piece content)).countP endsLine = content.count 10 := by
      simp [events, List.count, List.countP_map, Function.comp_def, endsLine]
    rw [List.flatMap_cons, List.countP_append, feeds, ih]
  | case3 rest ih => simp [events, ih]
  | case4 fault rest other ih =>
    have broken : events (failure fault) = [.error fault] := by
      cases fault with
      | interrupted => contradiction
      | _ => rfl
    rw [List.flatMap_cons, broken, ih]
    exact (List.countP_cons_of_pos rfl).symm

namespace Stretch

/- What an event does to the stretches after it concerns the first of them only, and not even that if
the event ends a line. -/
theorem extend_end {event : Except Fault UInt8} (ends : endsLine event = true) :
    ∃ last, ∀ later, extend event later = last :: later := by
  cases event with
  | error fault => exact ⟨.broken fault, fun _ => rfl⟩
  | ok byte =>
    have feed : byte = 10 := by simpa [endsLine] using ends
    refine ⟨.line [] true, ?_⟩
    intro later
    cases later with
    | nil => simp [extend, feed]
    | cons next rest => cases next <;> simp [extend, feed]

theorem extend_join {event : Except Fault UInt8} (inside : endsLine event = false) (next : Stretch) :
    ∃ joined, ∀ later, extend event (next :: later) = joined :: later := by
  cases event with
  | error fault => contradiction
  | ok byte =>
    have other : byte ≠ 10 := by simpa [endsLine] using inside
    cases next with
    | line content ended => exact ⟨.line (byte :: content) ended, fun later => by simp [extend, other]⟩
    | broken fault => exact ⟨.broken fault, fun later => by simp [extend, other]⟩

theorem extend_ne_nil (event : Except Fault UInt8) (later : List Stretch) :
    extend event later ≠ [] := by
  unfold extend
  split
  · simp
  · split <;> simp
  · split <;> simp
  · split <;> simp

theorem extend_append {event : Except Fault UInt8} {base : List Stretch}
    (anchored : base ≠ [] ∨ endsLine event = true) (later : List Stretch) :
    extend event (base ++ later) = extend event base ++ later ∧
      (extend event base).length = base.length + if endsLine event then 1 else 0 := by
  cases ends : endsLine event with
  | true =>
    obtain ⟨last, extended⟩ := extend_end ends
    simp [extended]
  | false =>
    obtain ⟨next, rest, rfl⟩ := List.exists_cons_of_ne_nil (anchored.resolve_right (by simp [ends]))
    obtain ⟨joined, extended⟩ := extend_join ends next
    simp [extended]

theorem foldr_extend {events : List (Except Fault UInt8)}
    (closed : ∀ event ∈ events.getLast?, endsLine event = true) (later : List Stretch) :
    events.foldr extend later = events.foldr extend [] ++ later ∧
      (events.foldr extend []).length = events.countP endsLine := by
  -- From the last event on, which ends a line: there is a stretch to join ever after.
  induction events with
  | nil => exact ⟨rfl, rfl⟩
  | cons event events ih =>
    cases events with
    | nil =>
      have ends : endsLine event = true := closed event (by simp)
      obtain ⟨append, length⟩ := extend_append (.inr ends : [] ≠ [] ∨ _) later
      exact ⟨append, by simpa using length⟩
    | cons next events =>
      obtain ⟨append, length⟩ := ih fun last member => closed last (by simpa using member)
      have some : (next :: events).foldr extend [] ≠ [] := extend_ne_nil next _
      obtain ⟨append_event, length_event⟩ := extend_append (.inl some) later
      refine ⟨?_, ?_⟩
      · rw [List.foldr_cons, append, append_event]
        rfl
      · rw [List.foldr_cons, length_event, length]
        exact List.countP_cons.symm

end Stretch

theorem stretches_append {first : List Delivery} (closed : Closed first) (second : List Delivery) :
    stretches (first ++ second) = stretches first ++ stretches second := by
  simp only [stretches, List.flatMap_append, List.foldr_append]
  exact (Stretch.foldr_extend closed _).1

theorem lines_append {first : List Delivery} (closed : Closed first) (second : List Delivery) :
    lines (first ++ second) = lines first ++ lines second := by
  simp only [lines, stretches_append closed, List.map_append]

theorem length_lines {deliveries : List Delivery} (closed : Closed deliveries) :
    (lines deliveries).length = lineEnds deliveries := by
  rw [lines, List.length_map, lineEnds_eq]
  exact (Stretch.foldr_extend closed []).2

theorem stretches_piece_append (first second : Bytes) :
    stretches [.piece (first ++ second)] = stretches ([.piece first] ++ [.piece second]) := by
  simp [stretches, events]

theorem Stretch.extend_unbroken (byte : UInt8) {later : List Stretch}
    (unbroken : ∀ fault, .broken fault ∉ later) (fault : Fault) :
    .broken fault ∉ extend (.ok byte) later := by
  cases later with
  | nil => by_cases feed : byte = 10 <;> simp [extend, feed]
  | cons next rest =>
    have kept := unbroken fault
    cases next with
    | line content ended =>
      by_cases feed : byte = 10
      · simpa [extend, feed] using kept
      · simpa [extend, feed] using kept
    | broken other => exact absurd List.mem_cons_self (unbroken other)

theorem stretches_unbroken (content : Bytes) (fault : Fault) :
    .broken fault ∉ stretches [.piece content] := by
  induction content generalizing fault with
  | nil => exact List.not_mem_nil
  | cons byte content ih =>
    have step : stretches [.piece (byte :: content)] =
        Stretch.extend (.ok byte) (stretches [.piece content]) := by
      simp [stretches, events]
    rw [step]
    exact Stretch.extend_unbroken byte ih fault

theorem lines_piece (content : Bytes) :
    ∃ texts : List Bytes, lines [.piece content] = texts.map .ok := by
  have unbroken := stretches_unbroken content
  rw [lines]
  generalize stretches [.piece content] = found at unbroken
  induction found with
  | nil => exact ⟨[], rfl⟩
  | cons stretch rest ih =>
    obtain ⟨texts, read⟩ := ih fun fault member => unbroken fault (List.mem_cons_of_mem _ member)
    cases stretch with
    | line text ended =>
      exact ⟨(if ended then dropReturn text else text) :: texts, by simp [Stretch.read, read]⟩
    | broken fault => exact absurd List.mem_cons_self (unbroken fault)

def Stretch.Within (kind : UInt8 → Prop) : Stretch → Prop
  | .line content _ => ∀ byte ∈ content, kind byte
  | .broken _ => True

theorem Stretch.extend_within {kind : UInt8 → Prop} {event : Except Fault UInt8}
    (added : ∀ byte, event = .ok byte → byte ≠ 10 → kind byte) {later : List Stretch}
    (within : ∀ stretch ∈ later, stretch.Within kind) :
    ∀ stretch ∈ extend event later, stretch.Within kind := by
  cases event with
  | error fault => simpa [extend, Within] using within
  | ok byte =>
    cases later with
    | nil =>
      by_cases feed : byte = 10
      · simp [extend, feed, Within]
      · simp [extend, feed, Within, added byte rfl feed]
    | cons next rest =>
      obtain ⟨first, others⟩ := List.forall_mem_cons.mp within
      by_cases feed : byte = 10
      · cases next <;> simpa [extend, feed, Within] using within
      · cases next with
        | broken fault => simpa [extend, feed] using within
        | line content ended =>
          have joined : ∀ other ∈ byte :: content, kind other :=
            List.forall_mem_cons.mpr ⟨added byte rfl feed, first⟩
          simpa [extend, feed] using ⟨joined, others⟩

theorem stretches_within {kind : UInt8 → Prop} {deliveries : List Delivery}
    (all : ∀ byte, .ok byte ∈ deliveries.flatMap events → byte ≠ 10 → kind byte) :
    ∀ stretch ∈ stretches deliveries, stretch.Within kind := by
  rw [stretches]
  generalize deliveries.flatMap events = found at all
  induction found with
  | nil => simp
  | cons event later ih =>
    refine Stretch.extend_within ?_ (ih fun byte member => all byte (List.mem_cons_of_mem _ member))
    rintro byte rfl
    exact all byte List.mem_cons_self

theorem dropReturn_sublist (content : Bytes) : (dropReturn content).Sublist content := by
  unfold dropReturn
  split
  · exact List.dropLast_sublist content
  · exact List.Sublist.refl content

theorem lines_within {kind : UInt8 → Prop} {deliveries : List Delivery}
    (all : ∀ byte, .ok byte ∈ deliveries.flatMap events → byte ≠ 10 → kind byte) {content : Bytes}
    (member : .ok content ∈ lines deliveries) : ∀ byte ∈ content, kind byte := by
  obtain ⟨stretch, found, read⟩ := List.mem_map.mp member
  have within := stretches_within all stretch found
  cases stretch with
  | broken fault => contradiction
  | line text ended =>
    cases read
    split
    · exact fun byte inside => within byte ((dropReturn_sublist text).subset inside)
    · exact within

theorem lines_inside {deliveries : List Delivery} {content : Bytes}
    (member : .ok content ∈ lines deliveries) : 10 ∉ content :=
  fun feed => lines_within (fun _ _ other => other) member 10 feed rfl

theorem stretches_line {text : Bytes} (inside : 10 ∉ text) :
    stretches [.piece (text ++ [10])] = [.line text true] := by
  induction text with
  | nil => rfl
  | cons byte text ih =>
    obtain ⟨other, inside⟩ := not_or.mp (mt List.mem_cons.mpr inside)
    have later := ih inside
    simp only [stretches, List.flatMap_cons, List.flatMap_nil, List.append_nil, events] at later ⊢
    rw [List.cons_append, List.map_cons, List.foldr_cons, later]
    simp [Stretch.extend, Ne.symm other]

/- Lines that are ended one by one are read as they are, unless they end in a carriage return. -/
theorem lines_flatMap {A : Type} (text : A → Bytes) (items : List A)
    (inside : ∀ item ∈ items, 10 ∉ text item)
    (clean : ∀ item ∈ items, (text item).getLast? ≠ some 13) :
    lines [.piece (items.flatMap fun item => text item ++ [10])] =
      items.map fun item => .ok (text item) := by
  induction items with
  | nil => rfl
  | cons item items ih =>
    have closed : Closed [.piece (text item ++ [10])] := by
      simp [Closed, events, endsLine]
    have kept : dropReturn (text item) = text item := by
      rw [dropReturn, if_neg (clean item (by simp))]
    have rest := ih (fun other member => inside other (by simp [member]))
      (fun other member => clean other (by simp [member]))
    rw [lines] at rest ⊢
    rw [List.flatMap_cons, stretches_piece_append, stretches_append closed,
      stretches_line (inside item (by simp)), List.map_append, rest]
    simp [Stretch.read, kept]

end WhitespaceAsm.Delivery
