import WhitespaceAsm.Proofs.LineEndings
import WhitespaceAsm.Proofs.NormalForm
import WhitespaceAsm.Proofs.Pieces

/-! The layout of a source does not matter. Any line with a statement may be replaced by the normal form
of its command. The program is the same then, and so are the diagnostics but for where in its line a
mnemonic stands; only the listing quotes the line as it is. -/
namespace WhitespaceAsm

/-- A diagnostic whose span is moved to the start of its line. -/
def Diagnostic.withoutLayout (diagnostic : Diagnostic) : Diagnostic :=
  { diagnostic with span := diagnostic.span.map fun span => ⟨0, span.stop - span.start⟩ }

def Row.withoutLayout (row : Row) : Row := { row with source := "" }

namespace Outcome

def withoutLayout : Outcome → Outcome
  | blank => blank
  | accepted mnemonic row warning =>
    accepted mnemonic row.withoutLayout (warning.map Diagnostic.withoutLayout)
  | rejected diagnostic => rejected diagnostic.withoutLayout

/- The command and the length of the mnemonic are all that matters of a statement. -/
theorem withoutLayout_ofStatement {a b : Statement} (same : a.toCommand = b.toCommand)
    (long : a.span.stop - a.span.start = b.span.stop - b.span.start) (file : String) (number : Nat)
    (text other : String) :
    (ofStatement file number text a).withoutLayout =
      (ofStatement file number other b).withoutLayout := by
  unfold ofStatement
  rw [same]
  cases b.program with
  | error cause => simp [withoutLayout, Diagnostic.withoutLayout, long]
  | ok program =>
    cases b.lint? <;> simp [withoutLayout, Row.withoutLayout, Diagnostic.withoutLayout, long]

end Outcome

namespace Run

variable {σ : Type}

def withoutLayout (run : Run σ) : Run σ :=
  { run with
    rows := run.rows.map Row.withoutLayout
    diagnostics := run.diagnostics.map Diagnostic.withoutLayout }

theorem note_withoutLayout [Sink σ] (run : Run σ) (text : String) :
    (run.note text).withoutLayout = run.withoutLayout.note text := by
  unfold note withoutLayout
  split <;> rfl

theorem tell_withoutLayout (run : Run σ) (diagnostic : Diagnostic) :
    (run.tell diagnostic).withoutLayout = run.withoutLayout.tell diagnostic.withoutLayout := by
  simp [tell, withoutLayout]

theorem tellAny_withoutLayout (run : Run σ) (warning : Option Diagnostic) :
    (run.tellAny warning).withoutLayout =
      run.withoutLayout.tellAny (warning.map Diagnostic.withoutLayout) := by
  cases warning with
  | none => rfl
  | some diagnostic => exact run.tell_withoutLayout diagnostic

theorem write_withoutLayout [Sink σ] (run : Run σ) (row : Row) :
    (run.write row).withoutLayout = run.withoutLayout.write row.withoutLayout := by
  have same : run.withoutLayout.sink = run.sink ∧ row.withoutLayout.program = row.program := ⟨rfl, rfl⟩
  unfold write
  rw [same.1, same.2]
  split
  · simp [withoutLayout]
  · rfl

/- One line: leaving out the layout first or last comes to the same. -/
theorem step_withoutLayout [Sink σ] (file : String) (run : Run σ) (outcome : Outcome) :
    (run.step file outcome).withoutLayout = run.withoutLayout.step file outcome.withoutLayout := by
  have fault : run.withoutLayout.fault = run.fault := rfl
  unfold step
  rw [fault]
  cases run.fault with
  | some _ => rfl
  | none =>
    cases outcome with
    | blank => rfl
    | rejected diagnostic => exact run.tell_withoutLayout diagnostic
    | accepted mnemonic row warning =>
      simp only [Outcome.withoutLayout, write_withoutLayout, tellAny_withoutLayout, note_withoutLayout]
      rfl

theorem foldl_withoutLayout [Sink σ] (file : String) (run : Run σ) (outcomes : List Outcome) :
    (outcomes.foldl (step file) run).withoutLayout =
      (outcomes.map Outcome.withoutLayout).foldl (step file) run.withoutLayout := by
  induction outcomes generalizing run with
  | nil => rfl
  | cons outcome outcomes ih =>
    rw [List.foldl_cons, ih, step_withoutLayout, List.map_cons, List.foldl_cons]

theorem assembleSource_withoutLayout [Sink σ] (run : Run σ) (name : String)
    {deliveries other : List Delivery}
    (same : (Source.mk name deliveries).outcomes.map Outcome.withoutLayout =
      (Source.mk name other).outcomes.map Outcome.withoutLayout) :
    (run.assembleSource ⟨name, deliveries⟩).withoutLayout =
      (run.assembleSource ⟨name, other⟩).withoutLayout := by
  unfold assembleSource
  cases run.fault with
  | some _ => rfl
  | none => simp only [foldl_withoutLayout, same]

end Run

theorem Text.encoded_eq_nil_iff {cs : List Char} : encoded cs = [] ↔ cs = [] := by
  constructor
  · intro nothing
    exact eq_nil_of_width (by rw [← length_encoded, nothing, List.length_nil])
  · rintro rfl
    rfl

theorem Command.Tidy.not_mem_line {command : Command} (tidy : command.Tidy) {byte : UInt8}
    (ending : byte = 10 ∨ byte = 13) : byte ∉ Text.bytes command.line := by
  obtain ⟨words, all, _, line⟩ := tidy.exists_words
  have spaced := Text.spaced_join all
  intro member
  rw [Text.bytes, line] at member
  rcases ending with rfl | rfl
  · exact spaced.separators '\n' (by decide) (Text.mem_of_mem_encoded (by decide) member)
  · exact spaced.separators '\r' (by decide) (Text.mem_of_mem_encoded (by decide) member)

namespace Statement

def ofLine? (line : Bytes) : Option Statement :=
  match (Text.ofBytes? line).map scan with
  | some (.ok found) => found
  | _ => none

/-- A line in normal form. One without a statement stays as it is. -/
def tidied (line : Bytes) : Bytes :=
  match ofLine? line with
  | some statement => Text.bytes statement.toCommand.line
  | none => line

theorem exists_text_of_ofLine? {line : Bytes} {statement : Statement}
    (found : ofLine? line = some statement) :
    ∃ text, Text.ofBytes? line = some text ∧ scan text = .ok (some statement) := by
  unfold ofLine? at found
  split at found
  · rename_i scanned
    obtain ⟨text, read, same⟩ := Option.map_eq_some_iff.mp scanned
    exact ⟨text, read, found ▸ same⟩
  · contradiction

theorem ofLine?_dropReturn (line : Bytes) : ofLine? (Delivery.dropReturn line) = ofLine? line := by
  unfold Delivery.dropReturn
  split
  · rename_i last
    obtain ⟨before, rfl⟩ := List.getLast?_eq_some_iff.mp last
    have same : (Text.ofBytes? (before ++ [13])).map scan = (Text.ofBytes? before).map scan := by
      rw [Text.ofBytes?_return, Option.map_map]
      congr 1
      funext text
      exact scan_push_gap (c := '\r') rfl text
    rw [List.dropLast_concat, ofLine?, ofLine?, same]
  · rfl

theorem tidied_cases (line : Bytes) :
    ofLine? line = none ∧ tidied line = line ∨
      ∃ text statement, ofLine? line = some statement ∧ Text.bytes text = line ∧
        scan text = .ok (some statement) ∧ tidied line = Text.bytes statement.toCommand.line := by
  cases found : ofLine? line with
  | none => exact .inl ⟨rfl, by rw [tidied, found]⟩
  | some statement =>
    obtain ⟨text, read, scanned⟩ := exists_text_of_ofLine? found
    exact .inr ⟨text, statement, rfl, Text.ofBytes?_eq_some_iff.mp read, scanned,
      by rw [tidied, found]⟩

theorem tidied_inside {line : Bytes} (inside : 10 ∉ line) : 10 ∉ tidied line := by
  rcases tidied_cases line with ⟨_, same⟩ | ⟨_, _, _, _, scanned, same⟩
  · rwa [same]
  · rw [same]
    exact (scan_tidy scanned).not_mem_line (.inl rfl)

theorem tidied_eq_nil_iff (line : Bytes) : tidied line = [] ↔ line = [] := by
  rcases tidied_cases line with ⟨_, same⟩ | ⟨text, statement, _, rfl, scanned, same⟩
  · rw [same]
  · have tidy := scan_tidy scanned
    obtain ⟨before, after, letters, _⟩ := scan_span scanned
    obtain ⟨words, all, _, joined⟩ := tidy.exists_words
    have written := mt (Text.join_eq_nil_iff all).mp (List.cons_ne_nil _ _)
    have named : text.toList ≠ [] := by
      intro nothing
      simp [nothing, tidy.named] at letters
    rw [same]
    simp only [Text.bytes, joined, Text.encoded_eq_nil_iff, written, named]

theorem tidied_dropReturn (line : Bytes) :
    tidied (Delivery.dropReturn line) = Delivery.dropReturn (tidied line) := by
  have found := ofLine?_dropReturn line
  rcases tidied_cases line with ⟨absent, same⟩ | ⟨_, statement, present, _, scanned, same⟩
  · rw [same, tidied, found, absent]
  · have clean := (scan_tidy scanned).not_mem_line (.inr rfl)
    have kept : Delivery.dropReturn (Text.bytes statement.toCommand.line) =
        Text.bytes statement.toCommand.line :=
      if_neg fun last => clean (List.mem_of_getLast? last)
    rw [same, kept, tidied, found, present]

end Statement

namespace Delivery

theorem lines_open {held : Bytes} (filled : held ≠ []) (inside : 10 ∉ held) :
    lines [.piece held] = [.ok held] := by
  rw [lines, stretches_open filled inside]
  rfl

/- Lines may be rewritten one by one in the bytes that they are read from, as long as none of them is
broken in two, vanishes, or gets another carriage return. -/
theorem lines_rewritten {rewrite : Bytes → Bytes} (inside : ∀ {line}, 10 ∉ line → 10 ∉ rewrite line)
    (nothing : ∀ line, rewrite line = [] ↔ line = [])
    (ends : ∀ line, rewrite (dropReturn line) = dropReturn (rewrite line)) (content : Bytes) :
    lines [.piece (List.intercalate [10] ((content.splitOn 10).map rewrite))] =
      (lines [.piece content]).map (Except.map rewrite) := by
  rcases Reader.feed_cases content with single | ⟨line, later, rfl, single⟩
  · rw [List.splitOn_eq_singleton single, List.map_singleton, List.intercalate_singleton]
    by_cases filled : content = []
    · rw [filled, (nothing []).mpr rfl]
      rfl
    · rw [lines_open filled single, lines_open (mt (nothing content).mp filled) (inside single)]
      rfl
  · -- There is one line feed less in what comes later.
    have rest := lines_rewritten inside nothing ends later
    have some : (later.splitOn 10).map rewrite ≠ [] := by simp [List.splitOn_ne_nil]
    rw [List.splitOn_append_cons_self_of_not_mem single, List.map_cons,
      List.intercalate_cons_of_ne_nil some, List.append_assoc, List.singleton_append,
      lines_ended (inside single), rest, lines_ended single, List.map_cons, ← ends]
    rfl
termination_by content.length
decreasing_by
  subst_vars
  simp only [List.length_append, List.length_cons]
  omega

end Delivery

namespace Source

def tidied (content : Bytes) : Bytes :=
  List.intercalate [10] ((content.splitOn 10).map Statement.tidied)

theorem lines_tidied (content : Bytes) :
    Delivery.lines [.piece (tidied content)] =
      (Delivery.lines [.piece content]).map (Except.map Statement.tidied) :=
  Delivery.lines_rewritten Statement.tidied_inside Statement.tidied_eq_nil_iff
    Statement.tidied_dropReturn content

end Source

namespace Outcome

theorem ofLine_tidied (file : String) (number : Nat) (line : Except Fault Bytes) :
    (ofLine file number (line.map Statement.tidied)).withoutLayout =
      (ofLine file number line).withoutLayout := by
  cases line with
  | error fault => rfl
  | ok content =>
    change (ofLine file number (.ok (Statement.tidied content))).withoutLayout = _
    rcases Statement.tidied_cases content with ⟨_, same⟩ | ⟨text, statement, _, rfl, scanned, same⟩
    · rw [same]
    · obtain ⟨before, after, _, span⟩ := Statement.scan_span scanned
      have rescanned := Statement.scan_line (Statement.scan_tidy scanned)
      have read : ∀ text, Text.ofBytes? (Text.bytes text) = some text :=
        fun text => Text.ofBytes?_eq_some_iff.mpr rfl
      simp only [same, ofLine, read, ofText, scanned, rescanned]
      refine withoutLayout_ofStatement ?_ ?_ file number _ _
      · rfl
      · simp [span, Text.width_toList]

end Outcome

theorem Source.outcomes_tidied (name : String) {deliveries other : List Delivery}
    (tidied : Delivery.lines other = (Delivery.lines deliveries).map (Except.map Statement.tidied)) :
    (Source.mk name other).outcomes.map Outcome.withoutLayout =
      (Source.mk name deliveries).outcomes.map Outcome.withoutLayout := by
  simp only [Source.outcomes, tidied, List.zipIdx_map, List.map_map]
  apply List.map_congr_left
  intro numbered _
  exact Outcome.ofLine_tidied name numbered.2 numbered.1

/-- Scanning gives commands in normal form, and all of them: written out with single spaces, such a
command is scanned to itself. So it makes no difference to a source if its lines are written that way,
whatever sink the program goes to. The sink gets the same bytes, and the diagnostics are the same ones
but for where in their lines they point to. -/
theorem scan_gives_normal_form :
    (∀ line statement, Statement.scan line = .ok (some statement) →
      statement.toCommand.Tidy ∧
      Statement.scan statement.toCommand.line =
        .ok (some ⟨statement.toCommand, ⟨0, statement.mnemonic.utf8ByteSize⟩⟩)) ∧
    (∀ command : Command, command.Tidy →
      ∃ statement, Statement.scan command.line = .ok (some statement) ∧
        statement.toCommand = command) ∧
    (∀ content, Delivery.lines [.piece (Source.tidied content)] =
      (Delivery.lines [.piece content]).map (Except.map Statement.tidied)) ∧
    ∀ {σ : Type} [Sink σ] (run : Run σ) (name : String) (deliveries other : List Delivery),
      Delivery.lines other = (Delivery.lines deliveries).map (Except.map Statement.tidied) →
        let before := run.assembleSource ⟨name, deliveries⟩
        let after := run.assembleSource ⟨name, other⟩
        after.sink = before.sink ∧ after.fault = before.fault ∧
        after.rows.map Row.withoutLayout = before.rows.map Row.withoutLayout ∧
        after.diagnostics.map Diagnostic.withoutLayout =
          before.diagnostics.map Diagnostic.withoutLayout := by
  refine ⟨?_, ?_, Source.lines_tidied, ?_⟩
  · intro line statement scanned
    have tidy := Statement.scan_tidy scanned
    exact ⟨tidy, Statement.scan_line tidy⟩
  · intro command tidy
    exact ⟨_, Statement.scan_line tidy, rfl⟩
  · intro σ _ run name deliveries other rewritten before after
    have same : after.withoutLayout = before.withoutLayout :=
      run.assembleSource_withoutLayout name (Source.outcomes_tidied name rewritten)
    have sink := congrArg Run.sink same
    have fault := congrArg Run.fault same
    exact ⟨sink, fault, congrArg Run.rows same, congrArg Run.diagnostics same⟩

-- Two single slashes stay apart.
example : (Statement.ofLine? (Text.bytes " print\ta/  /b///c")).map (·.toCommand.line) =
    some "print a/ /b" := by
  cbv

end WhitespaceAsm
