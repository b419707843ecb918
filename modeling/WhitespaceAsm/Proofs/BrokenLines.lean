import Mathlib.Data.List.DropRight
import WhitespaceAsm.Proofs.Lines
import WhitespaceAsm.Proofs.Sinks

/-! Lines that a read fault breaks. A physical line reaches from one line feed to the next, whatever
faults occur on the way. What has been read of it is lost with a fault, but reading goes on right
there: the bytes after the last fault are taken for a line of their own. -/
namespace WhitespaceAsm

namespace Delivery

def arrived (events : List (Except Fault UInt8)) : Bytes := events.filterMap Except.toOption

@[simp] theorem arrived_nil : arrived [] = [] := rfl

@[simp] theorem arrived_ok (byte : UInt8) (events : List (Except Fault UInt8)) :
    arrived (.ok byte :: events) = byte :: arrived events := rfl

@[simp] theorem arrived_error (fault : Fault) (events : List (Except Fault UInt8)) :
    arrived (.error fault :: events) = arrived events := rfl

/-- What arrives from one line feed to the next. -/
structure PhysicalLine where
  events : List (Except Fault UInt8)
  /-- A line feed follows. -/
  ended : Bool

namespace PhysicalLine

def ending (line : PhysicalLine) : Bytes := if line.ended then [10] else []

def sent (line : PhysicalLine) : Bytes := arrived line.events ++ line.ending

/-- A fault occurs after the first byte of the line. -/
def hit (line : PhysicalLine) : Bool :=
  (line.events.dropWhile fun event => !event.isOk).any fun event => !event.isOk

/-- What is left of the line after its last fault. -/
def resumed (line : PhysicalLine) : Bytes :=
  arrived (line.events.rtakeWhile Except.isOk) ++ line.ending

def extend (event : Except Fault UInt8) (later : List PhysicalLine) : List PhysicalLine :=
  match event, later with
  | .ok 10, _ => ⟨[], true⟩ :: later
  | _, [] => [⟨[event], false⟩]
  | _, line :: rest => ⟨event :: line.events, line.ended⟩ :: rest

end PhysicalLine

def physicalLines (deliveries : List Delivery) : List PhysicalLine :=
  (deliveries.flatMap events).foldr PhysicalLine.extend []

namespace PhysicalLine

theorem extend_feed (later : List PhysicalLine) : extend (.ok 10) later = ⟨[], true⟩ :: later := by
  cases later <;> rfl

theorem extend_nil {event : Except Fault UInt8} (inside : event ≠ .ok 10) :
    extend event [] = [⟨[event], false⟩] := by
  unfold extend
  split
  · contradiction
  · rfl
  · contradiction

theorem extend_cons {event : Except Fault UInt8} (inside : event ≠ .ok 10) (line : PhysicalLine)
    (rest : List PhysicalLine) :
    extend event (line :: rest) = ⟨event :: line.events, line.ended⟩ :: rest := by
  unfold extend
  split
  · contradiction
  · contradiction
  · rename_i same
    cases same
    rfl

theorem sent_extend (event : Except Fault UInt8) (later : List PhysicalLine) :
    (extend event later).flatMap sent = arrived [event] ++ later.flatMap sent := by
  by_cases feed : event = .ok 10
  · subst feed
    rw [extend_feed]
    rfl
  · cases later with
    | nil =>
      rw [extend_nil feed]
      cases event <;> simp [sent, ending]
    | cons line rest =>
      rw [extend_cons feed]
      cases event <;> simp [sent, ending]

/- Only a line that goes on at the end of the source may be open, and then something of it arrived. -/
def Proper (line : PhysicalLine) : Prop :=
  10 ∉ arrived line.events ∧ (line.ended = true ∨ line.events ≠ [])

theorem extend_proper (event : Except Fault UInt8) {later : List PhysicalLine}
    (proper : ∀ line ∈ later, line.Proper) : ∀ line ∈ extend event later, line.Proper := by
  by_cases feed : event = .ok 10
  · subst feed
    rw [extend_feed]
    exact List.forall_mem_cons.mpr ⟨⟨by simp, .inl rfl⟩, proper⟩
  · have other : ∀ {events : List (Except Fault UInt8)}, 10 ∉ arrived events →
        10 ∉ arrived (event :: events) := by
      intro events inside
      cases event with
      | error fault => exact inside
      | ok byte =>
        have apart : 10 ≠ byte := fun same => feed (congrArg Except.ok same.symm)
        simpa [apart] using inside
    cases later with
    | nil =>
      rw [extend_nil feed]
      exact List.forall_mem_singleton.mpr ⟨other (by simp), .inr (by simp)⟩
    | cons line rest =>
      rw [extend_cons feed]
      obtain ⟨first, others⟩ := List.forall_mem_cons.mp proper
      exact List.forall_mem_cons.mpr ⟨⟨other first.1, .inr (by simp)⟩, others⟩

theorem foldr_sent (events : List (Except Fault UInt8)) :
    (events.foldr extend []).flatMap sent = arrived events := by
  induction events with
  | nil => rfl
  | cons event later ih =>
    rw [List.foldr_cons, sent_extend, ih]
    cases event <;> rfl

theorem foldr_proper (events : List (Except Fault UInt8)) :
    ∀ line ∈ events.foldr extend [], line.Proper := by
  induction events with
  | nil => simp
  | cons event later ih => exact extend_proper event ih

theorem rtakeWhile_whole {events : List (Except Fault UInt8)} (whole : events.all Except.isOk = true) :
    events.rtakeWhile Except.isOk = events :=
  List.rtakeWhile_eq_self_iff.mpr (List.all_eq_true.mp whole)

theorem rtakeWhile_cons_whole {events : List (Except Fault UInt8)}
    (whole : events.all Except.isOk = true) (event : Except Fault UInt8) :
    (event :: events).rtakeWhile Except.isOk = if event.isOk then event :: events else events := by
  have all : ∀ later ∈ events.reverse, Except.isOk later = true := by
    simpa using List.all_eq_true.mp whole
  by_cases own : event.isOk = true
  · simp [List.rtakeWhile, List.takeWhile_append_of_pos all, own]
  · simp [List.rtakeWhile, List.takeWhile_append_of_pos all, own]

/- A fault further on decides what is left, so an event before it does not matter. -/
theorem rtakeWhile_cons_broken {events : List (Except Fault UInt8)}
    (broken : ¬ events.all Except.isOk = true) (event : Except Fault UInt8) :
    (event :: events).rtakeWhile Except.isOk = events.rtakeWhile Except.isOk := by
  have short : ¬ (events.reverse.takeWhile Except.isOk).length = events.reverse.length := by
    intro same
    have whole := List.IsPrefix.eq_of_length (List.takeWhile_prefix _) same
    apply broken
    simpa using List.takeWhile_eq_self_iff.mp whole
  rw [List.rtakeWhile, List.reverse_cons, List.takeWhile_append, if_neg short, List.rtakeWhile]

theorem resumed_error (fault : Fault) (events : List (Except Fault UInt8)) (ended : Bool) :
    resumed ⟨.error fault :: events, ended⟩ = resumed ⟨events, ended⟩ := by
  by_cases whole : events.all Except.isOk = true
  · simp [resumed, ending, rtakeWhile_cons_whole whole, rtakeWhile_whole whole, Except.isOk,
      Except.toBool]
  · simp only [resumed, ending, rtakeWhile_cons_broken whole]

theorem resumed_ok_whole {events : List (Except Fault UInt8)} (whole : events.all Except.isOk = true)
    (byte : UInt8) (ended : Bool) :
    resumed ⟨.ok byte :: events, ended⟩ = byte :: resumed ⟨events, ended⟩ := by
  simp [resumed, ending, rtakeWhile_cons_whole whole, rtakeWhile_whole whole, Except.isOk, Except.toBool]

theorem resumed_ok_broken {events : List (Except Fault UInt8)}
    (broken : ¬ events.all Except.isOk = true) (byte : UInt8) (ended : Bool) :
    resumed ⟨.ok byte :: events, ended⟩ = resumed ⟨events, ended⟩ := by
  simp only [resumed, ending, rtakeWhile_cons_broken broken]

theorem resumed_whole {line : PhysicalLine} (whole : line.events.all Except.isOk = true) :
    line.resumed = line.sent := by
  rw [resumed, rtakeWhile_whole whole, sent]

/- Faults before the first byte of a line cost nothing. -/
theorem resumed_unhit {line : PhysicalLine} (unhit : line.hit = false) :
    line.resumed = line.sent := by
  obtain ⟨events, ended⟩ := line
  induction events with
  | nil => rfl
  | cons event events ih =>
    cases event with
    | error fault =>
      rw [resumed_error, ih unhit]
      rfl
    | ok byte =>
      have whole : (⟨.ok byte :: events, ended⟩ : PhysicalLine).events.all Except.isOk = true := by
        simpa [hit, Except.isOk, Except.toBool] using unhit
      exact resumed_whole whole

def marks (events : List (Except Fault UInt8)) : List Stretch :=
  events.filterMap fun
    | .error fault => some (.broken fault)
    | .ok _ => none

/- The faults of a line, and what is left after them as a source of its own. -/
def stretches (line : PhysicalLine) : List Stretch :=
  marks line.events ++ Delivery.stretches [.piece line.resumed]

theorem marks_whole {events : List (Except Fault UInt8)} (whole : events.all Except.isOk = true) :
    marks events = [] := by
  apply List.filterMap_eq_nil_iff.mpr
  intro event member
  have fine := List.all_eq_true.mp whole event member
  cases event with
  | ok byte => rfl
  | error fault => contradiction

theorem marks_broken {events : List (Except Fault UInt8)} (broken : ¬ events.all Except.isOk = true) :
    ∃ fault later, marks events = .broken fault :: later := by
  induction events with
  | nil => simp at broken
  | cons event events ih =>
    cases event with
    | error fault => exact ⟨fault, marks events, rfl⟩
    | ok byte => exact ih broken

theorem stretches_cons (byte : UInt8) (content : Bytes) :
    Delivery.stretches [.piece (byte :: content)] =
      Stretch.extend (.ok byte) (Delivery.stretches [.piece content]) := by
  simp [Delivery.stretches, Delivery.events]

theorem resumed_ne_nil {line : PhysicalLine} (proper : line.Proper)
    (whole : line.events.all Except.isOk = true) : line.resumed ≠ [] := by
  obtain ⟨events, ended⟩ := line
  rw [resumed_whole whole]
  rcases proper.2 with rfl | some
  · simp [sent, ending]
  · obtain ⟨event, later, rfl⟩ := List.exists_cons_of_ne_nil some
    cases event with
    | ok byte => simp [sent]
    | error fault => contradiction

theorem stretches_error (fault : Fault) (line : PhysicalLine) :
    stretches ⟨.error fault :: line.events, line.ended⟩ = .broken fault :: line.stretches := by
  rw [stretches, resumed_error]
  rfl

theorem stretches_ok {line : PhysicalLine} (proper : line.Proper) {byte : UInt8} (inside : byte ≠ 10)
    (later : List Stretch) :
    Stretch.extend (.ok byte) (line.stretches ++ later) =
      stretches ⟨.ok byte :: line.events, line.ended⟩ ++ later := by
  obtain ⟨events, ended⟩ := line
  by_cases whole : events.all Except.isOk = true
  · have some : Delivery.stretches [.piece (resumed ⟨events, ended⟩)] ≠ [] := by
      obtain ⟨first, rest, left⟩ := List.exists_cons_of_ne_nil (resumed_ne_nil proper whole)
      rw [left, stretches_cons]
      exact Stretch.extend_ne_nil _ _
    have bare : marks (.ok byte :: events) = [] := marks_whole whole
    simp only [stretches, marks_whole whole, bare, List.nil_append, resumed_ok_whole whole,
      stretches_cons]
    exact (Stretch.extend_append (.inl some) later).1
  · obtain ⟨fault, more, marked⟩ := marks_broken whole
    have same : marks (.ok byte :: events) = .broken fault :: more := marked
    simp only [stretches, marked, same, resumed_ok_broken whole, List.cons_append, Stretch.extend,
      if_neg inside]

theorem extend_stretches (event : Except Fault UInt8) {later : List PhysicalLine}
    (proper : ∀ line ∈ later, line.Proper) :
    Stretch.extend event (later.flatMap stretches) = (extend event later).flatMap stretches := by
  cases event with
  | error fault =>
    cases later with
    | nil => rfl
    | cons line rest =>
      rw [extend_cons (by simp), List.flatMap_cons, List.flatMap_cons, stretches_error]
      rfl
  | ok byte =>
    by_cases feed : byte = 10
    · subst feed
      obtain ⟨last, ended⟩ := Stretch.extend_end (show endsLine (.ok 10) = true by rfl)
      have alone := ended []
      rw [extend_feed, ended, List.flatMap_cons]
      cases alone
      rfl
    · have inside : (.ok byte : Except Fault UInt8) ≠ .ok 10 := by simpa using feed
      cases later with
      | nil =>
        rw [extend_nil inside]
        have alone : resumed ⟨[.ok byte], false⟩ = [byte] := resumed_ok_whole rfl byte false
        simp only [List.flatMap_singleton, stretches, alone, stretches_cons]
        rfl
      | cons line rest =>
        rw [extend_cons inside, List.flatMap_cons, List.flatMap_cons]
        exact stretches_ok (proper line List.mem_cons_self) feed _

theorem foldr_stretches (events : List (Except Fault UInt8)) :
    events.foldr Stretch.extend [] = (events.foldr extend []).flatMap stretches := by
  induction events with
  | nil => rfl
  | cons event later ih =>
    rw [List.foldr_cons, ih, extend_stretches event (foldr_proper later), List.foldr_cons]

end PhysicalLine

theorem arrived_events (deliveries : List Delivery) :
    arrived (deliveries.flatMap events) = deliveries.flatMap content := by
  induction deliveries with
  | nil => rfl
  | cons delivery deliveries ih =>
    rw [List.flatMap_cons, arrived, List.filterMap_append]
    change arrived delivery.events ++ arrived (deliveries.flatMap events) = _
    rw [ih, List.flatMap_cons]
    cases delivery with
    | piece content => simp [arrived, events, Delivery.content, Function.comp_def, Except.toOption]
    | failure fault => cases fault <;> rfl

end Delivery

namespace Outcome

theorem program_number (file : String) (number : Nat) (line : Except Fault Bytes) :
    (ofLine file number line).program = (ofLine file 0 line).program := by
  rcases ofLine_cases file line with blank | ⟨_, _, rejected⟩ | ⟨_, _, _, _, _, accepted⟩
  · rw [blank, blank]
  · rw [rejected, rejected]
    rfl
  · rw [accepted, accepted]
    rfl

end Outcome

namespace Source

theorem content_stretches (source : Source) (verbose : Bool) :
    (source.assembled verbose).sink.content =
      (Delivery.stretches source.deliveries).flatMap fun stretch =>
        (Outcome.ofLine source.name 0 stretch.read).program := by
  let tokens := fun line => (Outcome.ofLine source.name 0 line).program
  calc (source.assembled verbose).sink.content
      = ((Delivery.lines source.deliveries).zipIdx 1).flatMap fun numbered => tokens numbered.1 := by
        rw [content_assembled, outcomes, List.flatMap_map]
        apply List.flatMap_congr
        intro numbered _
        exact Outcome.program_number source.name numbered.2 numbered.1
    _ = (Delivery.lines source.deliveries).flatMap tokens := by
        rw [← List.flatMap_map Prod.fst tokens, List.zipIdx_map_fst]
    _ = _ := by rw [Delivery.lines, List.flatMap_map]

def alone (name : String) (content : Bytes) : Bytes :=
  ((Source.mk name [.piece content]).assembled false).sink.content

theorem flatMap_marks (name : String) (events : List (Except Fault UInt8)) :
    (Delivery.PhysicalLine.marks events).flatMap (fun stretch =>
      (Outcome.ofLine name 0 stretch.read).program) = [] := by
  induction events with
  | nil => rfl
  | cons event events ih => cases event <;> exact ih

/- A physical line adds what its rest would add as a source of its own. -/
theorem content_resumed (source : Source) (verbose : Bool) :
    (source.assembled verbose).sink.content =
      (Delivery.physicalLines source.deliveries).flatMap fun line => alone source.name line.resumed := by
  rw [content_stretches, Delivery.stretches, Delivery.PhysicalLine.foldr_stretches,
    List.flatMap_assoc, Delivery.physicalLines]
  apply List.flatMap_congr
  intro line _
  rw [Delivery.PhysicalLine.stretches, List.flatMap_append, flatMap_marks, alone, content_stretches]
  rfl

end Source

/- Leaving parts out can only make the whole shorter, so it makes no difference exactly if these parts
are empty. -/
theorem length_flatMap_unless {A B : Type} (skip : A → Bool) (part : A → List B) (items : List A) :
    (items.flatMap fun item => if skip item then [] else part item).length ≤
      (items.flatMap part).length := by
  induction items with
  | nil => exact Nat.le_refl 0
  | cons item items ih =>
    simp only [List.flatMap_cons, List.length_append]
    split
    · simp only [List.length_nil]
      omega
    · omega

theorem flatMap_unless_iff {A B : Type} (skip : A → Bool) (part : A → List B) (items : List A) :
    items.flatMap part = (items.flatMap fun item => if skip item then [] else part item) ↔
      ∀ item ∈ items, skip item = true → part item = [] := by
  induction items with
  | nil => simp
  | cons item items ih =>
    rw [List.flatMap_cons, List.flatMap_cons, List.forall_mem_cons, ← ih]
    cases skipped : skip item with
    | false => simp
    | true =>
      simp only [if_true, List.nil_append, forall_const]
      constructor
      · intro same
        have short := length_flatMap_unless skip part items
        rw [← same, List.length_append] at short
        have empty : part item = [] := List.eq_nil_of_length_eq_zero (by omega)
        exact ⟨empty, by simpa [empty] using same⟩
      · rintro ⟨empty, same⟩
        rw [empty, List.nil_append, same]

/-- A read fault inside a physical line does not take the whole line away. Only what came before the
last fault is lost; the rest of the line is assembled as if it were a line of its own. A line is
left out altogether, as its error message has it, only where that rest adds nothing. -/
theorem broken_line_resumes (name : String) (deliveries : List Delivery) (verbose : Bool) :
    let lines := Delivery.physicalLines deliveries
    let written := ((Source.mk name deliveries).assembled verbose).sink.content
    lines.flatMap Delivery.PhysicalLine.sent = deliveries.flatMap Delivery.content ∧
    (∀ line ∈ lines, 10 ∉ Delivery.arrived line.events) ∧
    written = lines.flatMap (fun line => Source.alone name line.resumed) ∧
    (∀ line ∈ lines, line.hit = false → line.resumed = line.sent) ∧
    (written = lines.flatMap (fun line => if line.hit then [] else Source.alone name line.sent) ↔
      ∀ line ∈ lines, line.hit = true → Source.alone name line.resumed = []) := by
  intro lines written
  have resumed : written = lines.flatMap fun line => Source.alone name line.resumed :=
    Source.content_resumed _ verbose
  have unhit : ∀ line ∈ lines, line.hit = false → line.resumed = line.sent :=
    fun line _ => Delivery.PhysicalLine.resumed_unhit
  refine ⟨?_, ?_, resumed, unhit, ?_⟩
  · rw [← Delivery.arrived_events]
    exact Delivery.PhysicalLine.foldr_sent _
  · intro line member
    exact (Delivery.PhysicalLine.foldr_proper _ line member).1
  · have whole : (lines.flatMap fun line => if line.hit then [] else Source.alone name line.sent) =
        lines.flatMap fun line => if line.hit then [] else Source.alone name line.resumed := by
      apply List.flatMap_congr
      intro line _
      split
      · rfl
      · rename_i clear
        rw [Delivery.PhysicalLine.resumed_unhit (by simpa using clear)]
    rw [whole, resumed]
    exact flatMap_unless_iff _ _ lines

/-- The comment of a broken line is assembled. -/
theorem comment_assembled_after_fault :
    let deliveries : List Delivery :=
      [.piece (Text.bytes "push 1 // then "), .failure .timedOut, .piece (Text.bytes "add\n")]
    (Delivery.physicalLines deliveries).map Delivery.PhysicalLine.sent =
      [Text.bytes "push 1 // then add\n"] ∧
    (Delivery.physicalLines deliveries).all Delivery.PhysicalLine.hit = true ∧
    ((Source.mk "a" deliveries).assembled false).sink.content = Text.bytes "\t   " ∧
    ((Source.mk "a" deliveries).assembled false).sink.content ≠
      (Delivery.physicalLines deliveries).flatMap fun line =>
        if line.hit then [] else Source.alone "a" line.sent := by
  decide +kernel

end WhitespaceAsm
