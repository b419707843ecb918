import WhitespaceAsm.Proofs.Lines
import WhitespaceAsm.Proofs.Sinks

/-! Lines are independent of each other. What a line adds depends on its text, and on where it stands
only through its number, so deliveries that close their last line can be assembled apart from those
that follow. -/
namespace WhitespaceAsm

def Row.shift (count : Nat) (row : Row) : Row := { row with number := row.number + count }

def Diagnostic.shift (count : Nat) (diagnostic : Diagnostic) : Diagnostic :=
  { diagnostic with line := diagnostic.line.map (· + count) }

namespace Report

def shift (count : Nat) (report : Report) : Report :=
  ⟨report.program, report.rows.map (Row.shift count), report.diagnostics.map (Diagnostic.shift count)⟩

theorem shift_concat (count : Nat) (reports : List Report) :
    (concat reports).shift count = concat (reports.map (shift count)) := by
  induction reports with
  | nil => rfl
  | cons report reports ih =>
    rw [concat_cons, List.map_cons, concat_cons, ← ih]
    ext1 <;> simp [shift]

theorem shift_append (count : Nat) (a b : Report) :
    (a ++ b).shift count = a.shift count ++ b.shift count := by
  ext1 <;> simp [shift]

theorem shift_shift (a b : Nat) (report : Report) :
    (report.shift a).shift b = report.shift (a + b) := by
  have rows : ∀ row : Row, (row.shift a).shift b = row.shift (a + b) := by
    intro row
    simp [Row.shift, Nat.add_assoc]
  have lines : ∀ diagnostic : Diagnostic,
      (diagnostic.shift a).shift b = diagnostic.shift (a + b) := by
    intro diagnostic
    simp [Diagnostic.shift, Function.comp_def, Nat.add_assoc]
  ext1
  · rfl
  · simp [shift, Function.comp_def, rows]
  · simp [shift, Function.comp_def, lines]

end Report

theorem Listing.render_append (a b : List Row) :
    Listing.render (a ++ b) = Listing.render a ++ Listing.render b := by
  have onto : ∀ (rows : List Row) (text : String),
      rows.foldl (fun text row => text ++ row.render) text = text ++ Listing.render rows := by
    intro rows
    induction rows with
    | nil => simp [Listing.render]
    | cons row rows ih =>
      intro text
      rw [Listing.render, List.foldl_cons, List.foldl_cons, ih, ih ("" ++ row.render),
        String.empty_append, String.append_assoc]
  rw [Listing.render, List.foldl_append, onto]
  rfl

namespace Outcome

theorem report_shift (file : String) (number count : Nat) (line : Except Fault Bytes) :
    (ofLine file (number + count) line).report = (ofLine file number line).report.shift count := by
  rcases ofLine_cases file line with blank | ⟨_, _, rejected⟩ | ⟨command, _, _, _, _, accepted⟩
  · rw [blank, blank]
    rfl
  · rw [rejected, rejected]
    rfl
  · rw [accepted, accepted]
    cases command.lint? <;> rfl

end Outcome

namespace Source

theorem reports_append (name : String) {first : List Delivery} (closed : Delivery.Closed first)
    (second : List Delivery) :
    (Source.mk name (first ++ second)).outcomes.map Outcome.report =
      (Source.mk name first).outcomes.map Outcome.report ++
        ((Source.mk name second).outcomes.map Outcome.report).map
          (Report.shift (Delivery.lineEnds first)) := by
  have further := List.map_snd_add_zipIdx_eq_zipIdx
    (l := Delivery.lines second) (n := Delivery.lineEnds first) (k := 1)
  simp only [outcomes, Delivery.lines_append closed, List.zipIdx_append, List.map_append, List.map_map,
    Delivery.length_lines closed]
  rw [Nat.add_comm 1, ← further, List.map_map]
  congr 1
  apply List.map_congr_left
  intro numbered _
  exact Outcome.report_shift name numbered.2 (Delivery.lineEnds first) numbered.1

theorem report_append (name : String) {first : List Delivery} (closed : Delivery.Closed first)
    (second : List Delivery) (verbose : Bool) :
    ((Source.mk name (first ++ second)).assembled verbose).report =
      ((Source.mk name first).assembled verbose).report ++
        ((Source.mk name second).assembled verbose).report.shift (Delivery.lineEnds first) := by
  simp only [assembled_report, reports_append name closed, Report.concat_append, Report.shift_concat]

end Source

/-- Deliveries that close their last line are assembled as if nothing followed, and what follows as if
nothing came before, but for the numbers of its lines. So a line can be replaced by another one, and
only what the line itself adds is different. -/
theorem lines_independent (name : String) {run : Run Store} (free : run.Unhindered)
    {first : List Delivery} (closed : Delivery.Closed first) (second : List Delivery) :
    let report := fun deliveries => ((Source.mk name deliveries).assembled run.verbose).report
    let count := Delivery.lineEnds first
    let whole := run.assembleSource ⟨name, first ++ second⟩
    whole.fault = none ∧
    whole.report = run.report ++ report first ++ (report second).shift count ∧
    Listing.render whole.rows.toList =
      Listing.render run.rows.toList ++ Listing.render (report first).rows ++
        Listing.render ((report second).rows.map (Row.shift count)) ∧
    ∀ line other, Delivery.Closed line → Delivery.Closed other →
      Delivery.lineEnds line = 1 → Delivery.lineEnds other = 1 →
      (run.assembleSource ⟨name, first ++ (line ++ second)⟩).report =
        run.report ++ report first ++ (report line).shift count ++ (report second).shift (count + 1) ∧
      (run.assembleSource ⟨name, first ++ (other ++ second)⟩).report =
        run.report ++ report first ++ (report other).shift count ++
          (report second).shift (count + 1) := by
  intro report count whole
  have added : ∀ deliveries, (run.assembleSource ⟨name, first ++ deliveries⟩).report =
      run.report ++ report first ++ (report deliveries).shift count := by
    intro deliveries
    rw [(Run.assembleSource_unhindered free _).2, ← Source.assembled_report _ run.verbose,
      Source.report_append name closed, Report.append_assoc]
  have replaced : ∀ line, Delivery.Closed line → Delivery.lineEnds line = 1 →
      (run.assembleSource ⟨name, first ++ (line ++ second)⟩).report =
        run.report ++ report first ++ (report line).shift count ++
          (report second).shift (count + 1) := by
    intro line closed_line single
    have middle : report (line ++ second) = report line ++ (report second).shift 1 :=
      single ▸ Source.report_append name closed_line second run.verbose
    rw [added, middle, Report.shift_append, Report.shift_shift, Nat.add_comm 1, ← Report.append_assoc]
  refine ⟨(Run.assembleSource_unhindered free _).1.running, added second, ?_, ?_⟩
  · have rows := congrArg Report.rows (added second)
    change whole.rows.toList = _ at rows
    rw [rows, Report.rows_append, Report.rows_append, Listing.render_append, Listing.render_append]
    rfl
  · intro line other closed_line closed_other single_line single_other
    exact ⟨replaced line closed_line single_line, replaced other closed_other single_other⟩

/-- A fault closes the line that it breaks, and is counted as one. -/
theorem lines_independent_of_fault :
    let first : List Delivery := [.piece (Text.bytes "push 1\nad"), .failure .timedOut]
    let second : List Delivery := [.piece (Text.bytes "pushchar xy")]
    let report := fun deliveries => ((Source.mk "a" deliveries).assembled false).report
    Delivery.Closed first ∧ Delivery.lineEnds first = 2 ∧
      report (first ++ second) = report first ++ (report second).shift 2 := by
  intro first second report
  have closed : Delivery.Closed first := by decide
  have count : Delivery.lineEnds first = 2 := by decide
  have fresh : ({ verbose := false, sink := .unlimited } : Run Store).Unhindered := ⟨rfl, rfl⟩
  refine ⟨closed, count, ?_⟩
  exact count ▸ (lines_independent "a" fresh closed second).2.1

end WhitespaceAsm
