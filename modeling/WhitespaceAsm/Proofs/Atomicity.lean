import WhitespaceAsm.Proofs.Emission

/-! A command adds all of its text or nothing. A primitive instruction encodes its parameter before
it writes, and a pseudo-instruction is written apart and added at the end, so what stood there
before has no part in it. Commands that are emitted one after the other thus leave the texts of the
accepted ones. -/
namespace WhitespaceAsm

namespace Emission

/- What an emission comes to wherever it starts: a text of its own that it adds, or a refusal that
leaves the text as it was. -/
def Yields (emission : Emission Unit) : Except CommandError String → Prop
  | .ok added => ∀ text, emission.onto text = (.ok (), text ++ added)
  | .error cause => ∀ text, emission.onto text = (.error cause, text)

theorem yields_append (added : String) : (append added).Yields (.ok added) :=
  onto_append added

theorem yields_throw (cause : CommandError) : (throw cause : Emission Unit).Yields (.error cause) :=
  onto_throw cause

theorem yields_pure : (pure () : Emission Unit).Yields (.ok "") := by
  intro text
  rw [onto_pure, String.append_empty]

/- Only where neither part is refused: a refusal of the second one would leave the first one's text.
-/
theorem yields_seq {first next : Emission Unit} {one two : String} (done : first.Yields (.ok one))
    (more : next.Yields (.ok two)) : (first >>= fun _ => next).Yields (.ok (one ++ two)) := by
  intro text
  rw [onto_seq_ok (done text), more, String.append_assoc]

theorem yields_whole_ok {emission : Emission Unit} {added : String}
    (done : emission.Yields (.ok added)) : (whole emission).Yields (.ok added) := by
  intro text
  rw [onto_whole_ok (done ""), String.empty_append]

theorem yields_whole_error {emission : Emission Unit} {cause : CommandError}
    (refused : emission.Yields (.error cause)) : (whole emission).Yields (.error cause) :=
  onto_whole_error (refused "")

/- Done as a whole, even an emission that breaks off half way leaves no trace. -/
theorem exists_yields_whole (emission : Emission Unit) : ∃ result, (whole emission).Yields result := by
  cases ended : emission.onto "" with
  | mk ending written =>
    cases ending with
    | ok => exact ⟨.ok written, onto_whole_ok ended⟩
    | error cause => exact ⟨.error cause, onto_whole_error ended⟩

end Emission

theorem Opcode.exists_yields_emit (opcode : Opcode) (parameter : String) :
    ∃ result, (opcode.emit parameter).Yields result := by
  by_cases takes : opcode.takesParameter = true
  · cases encoded : Parameter.encode parameter with
    | ok tokens =>
      rw [emit_encoded takes encoded]
      exact ⟨_, Emission.yields_append _⟩
    | error error =>
      obtain ⟨cause, failed⟩ := emit_error takes encoded
      rw [failed]
      exact ⟨_, Emission.yields_throw cause⟩
  · rw [emit_bare takes]
    exact ⟨_, Emission.yields_append _⟩

namespace Command

theorem exists_yields_emit (command : Command) : ∃ result, command.emit.Yields result := by
  unfold emit
  split
  · exact Opcode.exists_yields_emit _ _
  · exact Emission.exists_yields_whole _
  · exact ⟨_, Emission.yields_throw _⟩

theorem program_of_yields {command : Command} {result : Except CommandError String}
    (yields : command.emit.Yields result) : command.program = result := by
  cases result with
  | ok added => rw [program, yields "", String.empty_append]
  | error cause => rw [program, yields ""]

theorem program_cases (command : Command) :
    (∃ added, command.program = .ok added ∧
      ∀ text, command.emit.onto text = (.ok (), text ++ added)) ∨
    ∃ cause, command.program = .error cause ∧
      ∀ text, command.emit.onto text = (.error cause, text) := by
  obtain ⟨result, yields⟩ := command.exists_yields_emit
  have emitted := program_of_yields yields
  cases result with
  | ok added => exact .inl ⟨added, emitted, yields⟩
  | error cause => exact .inr ⟨cause, emitted, yields⟩

theorem onto_eq_ok_iff {command : Command} {added : String} :
    command.emit.onto "" = (.ok (), added) ↔ command.program = .ok added := by
  rcases command.program_cases with ⟨text, emitted, onto⟩ | ⟨cause, emitted, onto⟩
  · simp [emitted, onto ""]
  · simp [emitted, onto ""]

theorem ending_eq_error_iff {command : Command} {cause : CommandError} (text : String) :
    (command.emit.onto text).1 = .error cause ↔ command.program = .error cause := by
  rcases command.program_cases with ⟨added, emitted, onto⟩ | ⟨other, emitted, onto⟩
  · simp [emitted, onto text]
  · simp [emitted, onto text]

/-- Emits commands one after the other onto one text: how each of them ends, and the text after it.
-/
def emitEach (text : String) : List Command → List (Except CommandError Unit × String)
  | [] => []
  | command :: rest => command.emit.onto text :: emitEach (command.emit.onto text).2 rest

def written (text : String) (commands : List Command) : String :=
  text ++ String.join (commands.filterMap fun command => command.program.toOption)

theorem written_append (text : String) (first second : List Command) :
    written text (first ++ second) = written (written text first) second := by
  simp [written, String.append_assoc]

theorem written_ok {command : Command} {added : String} (done : command.program = .ok added)
    (text : String) : written text [command] = text ++ added := by
  simp [written, done, Except.toOption]

theorem written_error {command : Command} {cause : CommandError}
    (refused : command.program = .error cause) (text : String) : written text [command] = text := by
  simp [written, refused, Except.toOption]

/- One call: it ends as it does alone, and leaves its program or nothing. -/
theorem onto_emit (command : Command) (text : String) :
    command.emit.onto text = ((command.emit.onto "").1, written text [command]) := by
  rcases command.program_cases with ⟨added, emitted, onto⟩ | ⟨cause, emitted, onto⟩
  · rw [onto text, onto "", written_ok emitted]
  · rw [onto text, onto "", written_error emitted]

theorem length_emitEach (text : String) (commands : List Command) :
    (emitEach text commands).length = commands.length := by
  induction commands generalizing text with
  | nil => rfl
  | cons command rest ih => simp [emitEach, ih]

theorem getElem?_emitEach {commands : List Command} {i : Nat} {command : Command}
    (called : commands[i]? = some command) (text : String) :
    (emitEach text commands)[i]? =
      some ((command.emit.onto "").1, written text (commands.take (i + 1))) := by
  -- Each call starts from what the ones before it have left.
  induction commands generalizing text i with
  | nil => simp at called
  | cons first rest ih =>
    cases i with
    | zero =>
      cases called
      rw [emitEach, onto_emit]
      rfl
    | succ i =>
      have split : written text ((first :: rest).take (i + 1 + 1)) =
          written (written text [first]) (rest.take (i + 1)) := written_append text [first] _
      rw [emitEach, List.getElem?_cons_succ, onto_emit, split]
      exact ih called _

end Command

/-- Commands that share a text do not get into each other's way. Each one ends as it does on its
own, and the text is what it was at first, followed by the programs of those that were not refused.
-/
theorem refused_commands_leave_no_trace (initial : String) (commands : List Command) :
    let steps := Command.emitEach initial commands
    let written := fun count => Command.written initial (commands.take count)
    steps.length = commands.length ∧
    ∀ i command, commands[i]? = some command →
      (initial :: steps.map Prod.snd)[i]? = some (written i) ∧
      steps[i]? = some ((command.emit.onto "").1, written (i + 1)) ∧
      (∀ added, command.emit.onto "" = (.ok (), added) → written (i + 1) = written i ++ added) ∧
      ∀ cause, (command.emit.onto "").1 = .error cause → written (i + 1) = written i := by
  intro steps written
  refine ⟨Command.length_emitEach initial commands, ?_⟩
  intro i command called
  have next : written (i + 1) = Command.written (written i) [command] := by
    simp only [written]
    rw [List.take_add_one, called, Command.written_append]
    rfl
  refine ⟨?_, Command.getElem?_emitEach called initial, ?_, ?_⟩
  · cases i with
    | zero => simp [written, Command.written]
    | succ i =>
      obtain ⟨before, at_before⟩ : ∃ before, commands[i]? = some before := by
        have inside := (List.getElem?_eq_some_iff.mp called).1
        exact ⟨commands[i], List.getElem?_eq_getElem (by omega)⟩
      rw [List.getElem?_cons_succ, List.getElem?_map, Command.getElem?_emitEach at_before]
      rfl
  · intro added done
    rw [next, Command.written_ok (Command.onto_eq_ok_iff.mp done)]
  · intro cause refused
    rw [next, Command.written_error ((Command.ending_eq_error_iff "").mp refused)]

end WhitespaceAsm
