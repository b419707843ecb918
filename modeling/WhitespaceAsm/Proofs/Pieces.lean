import WhitespaceAsm.Proofs.Lines
import WhitespaceAsm.Source

/-! Sources read piece by piece. A reader knows one piece at a time. It gives out each line as soon as
its line feed is there and holds on to the start of a line that is still open, so where the pieces
were cut decides nothing: what a line says is looked at only when all of it has arrived. -/
namespace WhitespaceAsm

namespace Delivery

/-- A reader between two deliveries: the lines that it has given out, and what it holds of the next. -/
structure Reader where
  given : List (Except Fault Bytes)
  held : Bytes

namespace Reader

/-- Takes in a piece. Up to the first line feed it belongs to the line that is held. -/
def fill (reader : Reader) (content : Bytes) : Reader :=
  match rest : content.dropWhile (· != 10) with
  | [] => { reader with held := reader.held ++ content }
  | _ :: later =>
    let line := dropReturn (reader.held ++ content.takeWhile (· != 10))
    fill ⟨reader.given ++ [.ok line], []⟩ later
termination_by content.length
decreasing_by
  have shorter := (List.dropWhile_suffix (l := content) (· != 10)).length_le
  simp only [rest, List.length_cons] at shorter
  omega

/-- Takes in a delivery. A read that was interrupted is tried again; any other fault takes the place of
the line that it breaks. -/
def take (reader : Reader) : Delivery → Reader
  | piece content => reader.fill content
  | failure .interrupted => reader
  | failure fault => ⟨reader.given ++ [.error fault], []⟩

def finish (reader : Reader) : List (Except Fault Bytes) :=
  if reader.held.isEmpty then reader.given else reader.given ++ [.ok reader.held]

theorem all_of_inside {text : Bytes} (inside : 10 ∉ text) : ∀ byte ∈ text, (byte != 10) = true := by
  intro byte member
  have other : byte ≠ 10 := fun feed => inside (feed ▸ member)
  simpa using other

theorem fill_open {content : Bytes} (inside : 10 ∉ content) (reader : Reader) :
    reader.fill content = { reader with held := reader.held ++ content } := by
  have nothing : (content ++ []).dropWhile (· != 10) = [] :=
    List.dropWhile_append_of_pos (all_of_inside inside)
  rw [fill]
  split
  · rfl
  · simp_all

theorem fill_line {text : Bytes} (inside : 10 ∉ text) (later : Bytes) (reader : Reader) :
    reader.fill (text ++ 10 :: later) =
      fill ⟨reader.given ++ [.ok (dropReturn (reader.held ++ text))], []⟩ later := by
  have all := all_of_inside inside
  have rest : (text ++ 10 :: later).dropWhile (· != 10) = 10 :: later := by
    simp [List.dropWhile_append_of_pos all]
  have line : (text ++ 10 :: later).takeWhile (· != 10) = text := by
    simp [List.takeWhile_append_of_pos all]
  rw [fill]
  split
  · simp_all
  · simp_all

theorem feed_cases (content : Bytes) :
    10 ∉ content ∨ ∃ text later, content = text ++ 10 :: later ∧ 10 ∉ text := by
  by_cases feed : 10 ∈ content
  · exact .inr (List.eq_append_cons_of_mem feed)
  · exact .inl feed

theorem fill_fill (reader : Reader) (first second : Bytes) :
    (reader.fill first).fill second = reader.fill (first ++ second) := by
  rcases feed_cases first with inside | ⟨text, later, rfl, inside⟩
  · simp only [fill_open inside]
    rcases feed_cases second with beyond | ⟨text, later, rfl, beyond⟩
    · have whole : 10 ∉ first ++ second := by simp [inside, beyond]
      simp only [fill_open beyond, fill_open whole, List.append_assoc]
    · have whole : 10 ∉ first ++ text := by simp [inside, beyond]
      rw [fill_line beyond, ← List.append_assoc, fill_line whole, List.append_assoc]
  · simp only [List.append_assoc, List.cons_append, fill_line inside]
    -- One line less is left of the first piece.
    exact fill_fill _ later second
termination_by first.length
decreasing_by
  subst_vars
  simp only [List.length_append, List.length_cons]
  omega

theorem foldl_take {cuts : List Delivery}
    (harmless : ∀ fault, failure fault ∈ cuts → fault = .interrupted) (reader : Reader) :
    cuts.foldl take reader = reader.fill (cuts.flatMap content) := by
  induction cuts generalizing reader with
  | nil => simp [fill_open]
  | cons delivery cuts ih =>
    have later := ih fun fault member => harmless fault (List.mem_cons_of_mem _ member)
    rw [List.foldl_cons, later, List.flatMap_cons]
    cases delivery with
    | piece content => exact fill_fill reader content _
    | failure fault =>
      cases harmless fault List.mem_cons_self
      rfl

end Reader

def readLines (deliveries : List Delivery) : List (Except Fault Bytes) :=
  (deliveries.foldl Reader.take ⟨[], []⟩).finish

theorem lines_eq_of_events {first second : List Delivery}
    (same : first.flatMap events = second.flatMap events) : lines first = lines second := by
  simp only [lines, stretches, same]

theorem stretches_open {held : Bytes} (some : held ≠ []) (inside : 10 ∉ held) :
    stretches [.piece held] = [.line held false] := by
  induction held with
  | nil => contradiction
  | cons byte held ih =>
    obtain ⟨other, inside⟩ := not_or.mp (mt List.mem_cons.mpr inside)
    have step : stretches [.piece (byte :: held)] =
        Stretch.extend (.ok byte) (stretches [.piece held]) := by
      simp [stretches, events]
    rw [step]
    cases held with
    | nil => simp [stretches, events, Stretch.extend, Ne.symm other]
    | cons next held => simp [ih (List.cons_ne_nil _ _) inside, Stretch.extend, Ne.symm other]

theorem stretches_broken {held : Bytes} (inside : 10 ∉ held) {fault : Fault}
    (ends : events (.failure fault) = [.error fault]) :
    stretches [.piece held, .failure fault] = [.broken fault] := by
  induction held with
  | nil =>
    simp only [stretches, List.flatMap_cons, List.flatMap_nil, ends]
    rfl
  | cons byte held ih =>
    obtain ⟨other, inside⟩ := not_or.mp (mt List.mem_cons.mpr inside)
    have later := ih inside
    simp only [stretches, List.flatMap_cons, List.flatMap_nil, List.append_nil, ends] at later ⊢
    simp only [events, List.map_cons, List.cons_append, List.foldr_cons] at later ⊢
    simp [later, Stretch.extend, Ne.symm other]

theorem lines_ended {text : Bytes} (inside : 10 ∉ text) (rest : Bytes) (later : List Delivery) :
    lines (.piece (text ++ 10 :: rest) :: later) =
      .ok (dropReturn text) :: lines (.piece rest :: later) := by
  have closed : Closed [.piece (text ++ [10])] := by simp [Closed, events, endsLine]
  have parted : lines (.piece (text ++ 10 :: rest) :: later) =
      lines ([.piece (text ++ [10])] ++ (.piece rest :: later)) :=
    lines_eq_of_events (by simp [events])
  rw [parted, lines_append closed, lines, stretches_line inside]
  rfl

namespace Reader

/- The lines still to come are those of what is held and what is still to be delivered. -/
def pending (reader : Reader) (later : List Delivery) : List (Except Fault Bytes) :=
  reader.given ++ lines (.piece reader.held :: later)

/- One piece: nothing is lost of it, and what is held is open still. -/
theorem pending_fill (reader : Reader) (inside : 10 ∉ reader.held) (content : Bytes)
    (later : List Delivery) :
    10 ∉ (reader.fill content).held ∧
      (reader.fill content).pending later = reader.pending (.piece content :: later) := by
  rcases feed_cases content with beyond | ⟨text, rest, rfl, beyond⟩
  · rw [fill_open beyond]
    refine ⟨by simp [inside, beyond], congrArg (reader.given ++ ·) (lines_eq_of_events ?_)⟩
    simp [events]
  · have line : 10 ∉ reader.held ++ text := by simp [inside, beyond]
    have split : lines (.piece reader.held :: .piece (text ++ 10 :: rest) :: later) =
        .ok (dropReturn (reader.held ++ text)) :: lines (.piece [] :: .piece rest :: later) := by
      have joined : lines (.piece reader.held :: .piece (text ++ 10 :: rest) :: later) =
          lines (.piece (reader.held ++ text ++ 10 :: rest) :: later) :=
        lines_eq_of_events (by simp [events])
      rw [joined, lines_ended line]
      rfl
    obtain ⟨still, same⟩ := pending_fill
      ⟨reader.given ++ [.ok (dropReturn (reader.held ++ text))], []⟩ List.not_mem_nil rest later
    rw [fill_line beyond]
    refine ⟨still, same.trans ?_⟩
    simp [pending, split]
termination_by content.length
decreasing_by
  subst_vars
  simp only [List.length_append, List.length_cons]
  omega

/- Any fault but an interrupted read takes the place of the line that is held. -/
theorem failure_cases (fault : Fault) :
    fault = .interrupted ∨ events (.failure fault) = [.error fault] ∧
      ∀ reader : Reader, reader.take (.failure fault) = ⟨reader.given ++ [.error fault], []⟩ := by
  cases fault with
  | interrupted => exact .inl rfl
  | _ => exact .inr ⟨rfl, fun _ => rfl⟩

theorem pending_take (reader : Reader) (inside : 10 ∉ reader.held) (delivery : Delivery)
    (later : List Delivery) :
    10 ∉ (reader.take delivery).held ∧
      (reader.take delivery).pending later = reader.pending (delivery :: later) := by
  cases delivery with
  | piece content => exact pending_fill reader inside content later
  | failure fault =>
    rcases failure_cases fault with rfl | ⟨ends, taken⟩
    · exact ⟨inside, congrArg (reader.given ++ ·) (lines_eq_of_events rfl)⟩
    · have closed : Closed [.piece reader.held, .failure fault] := by
        simp only [Closed, List.flatMap_cons, List.flatMap_nil, ends, List.append_nil,
          List.getLast?_concat]
        rintro event ⟨⟩
        rfl
      have split : lines (.piece reader.held :: .failure fault :: later) =
          .error fault :: lines (.piece [] :: later) := by
        have parted : lines (.piece reader.held :: .failure fault :: later) =
            lines ([.piece reader.held, .failure fault] ++ (.piece [] :: later)) :=
          lines_eq_of_events rfl
        rw [parted, lines_append closed, lines, stretches_broken inside ends]
        rfl
      rw [taken]
      exact ⟨List.not_mem_nil, by simp [pending, split]⟩

theorem pending_nil (reader : Reader) (inside : 10 ∉ reader.held) :
    reader.pending [] = reader.finish := by
  unfold pending finish
  cases held : reader.held with
  | nil => simp [lines, stretches, events]
  | cons byte rest =>
    rw [lines, ← held, stretches_open (by simp [held]) inside]
    simp [held, Stretch.read]

theorem finish_foldl (reader : Reader) (inside : 10 ∉ reader.held) (deliveries : List Delivery) :
    (deliveries.foldl take reader).finish = reader.pending deliveries := by
  induction deliveries generalizing reader with
  | nil => exact (pending_nil reader inside).symm
  | cons delivery deliveries ih =>
    obtain ⟨still, same⟩ := pending_take reader inside delivery deliveries
    exact (ih _ still).trans same

end Reader

theorem readLines_eq (deliveries : List Delivery) : readLines deliveries = lines deliveries := by
  have read := Reader.finish_foldl ⟨[], []⟩ List.not_mem_nil deliveries
  rw [readLines, read]
  exact lines_eq_of_events rfl

theorem readLines_cuts {cuts : List Delivery}
    (harmless : ∀ fault, failure fault ∈ cuts → fault = .interrupted) :
    readLines cuts = readLines [.piece (cuts.flatMap content)] := by
  rw [readLines, Reader.foldl_take harmless]
  rfl

end Delivery

/-- How a source is delivered does not matter. However its bytes are cut into pieces, and however often
reading is interrupted, a reader that goes from piece to piece gives the same lines, and a run adds
the same to the program, the listing and the diagnostics as if all bytes came at once. -/
theorem cuts_irrelevant {σ : Type} [Sink σ] (run : Run σ) (name : String) (content : Bytes)
    (cuts : List Delivery) (whole : cuts.flatMap Delivery.content = content)
    (harmless : ∀ fault, .failure fault ∈ cuts → fault = .interrupted) :
    Delivery.readLines cuts = Delivery.lines [.piece content] ∧
      run.assembleSource ⟨name, cuts⟩ = run.assembleSource ⟨name, [.piece content]⟩ := by
  subst whole
  have cut := Delivery.readLines_cuts harmless
  simp only [Delivery.readLines_eq] at cut ⊢
  refine ⟨cut, ?_⟩
  simp only [Run.assembleSource, Source.outcomes, cut]

/-- Cuts inside a word, a comment and a character, and between a carriage return and its line feed. -/
theorem cuts_everywhere_irrelevant :
    let content := Text.bytes "push 1 // é\r\nadd"
    let cuts : List Delivery := [.piece (content.take 2), .failure .interrupted, .piece [],
      .piece ((content.drop 2).take 6), .piece ((content.drop 8).take 3), .failure .interrupted,
      .failure .interrupted, .piece ((content.drop 11).take 2), .piece (content.drop 13)]
    let run : Run Store := { verbose := false, sink := .unlimited }
    (cuts.flatMap Delivery.content = content ∧
      ∀ fault, .failure fault ∈ cuts → fault = .interrupted) ∧
      run.assembleSource ⟨"a", cuts⟩ = run.assembleSource ⟨"a", [.piece content]⟩ := by
  intro content cuts run
  have whole : cuts.flatMap Delivery.content = content := by decide +kernel
  have harmless : ∀ fault, .failure fault ∈ cuts → fault = .interrupted := by
    intro fault member
    simpa [cuts] using member
  exact ⟨⟨whole, harmless⟩, (cuts_irrelevant run "a" content cuts whole harmless).2⟩

end WhitespaceAsm
