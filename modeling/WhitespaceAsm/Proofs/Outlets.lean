import WhitespaceAsm.Assembly
import WhitespaceAsm.Proofs.Files
import WhitespaceAsm.Proofs.Sinks

/-! Outlets as sinks. A file behind a buffer gets every byte in order, though some of them may have
reached it early; a device without room refuses the first bytes that leave the buffer. -/
namespace WhitespaceAsm

namespace Outlet

theorem note_world (outlet : Outlet) (text : String) :
    (Sink.note outlet text).target = outlet.target ∧
      (Sink.note outlet text).world.SameFiles outlet.world :=
  ⟨rfl, .send outlet.world .error _⟩

section File

variable {base : World} {place : Location} {outlet : Outlet} {content : Bytes}

/- The file at the place and the bytes that wait for it make up the content. All else is as in the
world before. -/
def Fills (base : World) (place : Location) (outlet : Outlet) (content : Bytes) : Prop :=
  ∃ written pending, outlet.target = .file place pending ∧
    outlet.world.SameFiles (base.put place (.file written)) ∧ written ++ pending.content = content

theorem append_fills {world : World} {written : Bytes}
    (same : world.SameFiles (base.put place (.file written))) (bytes : Bytes) :
    ∃ next, world.append place bytes = (next, none) ∧
      next.SameFiles (base.put place (.file (written ++ bytes))) := by
  unfold World.append
  cases bytes with
  | nil =>
    refine ⟨world, rfl, ?_⟩
    rwa [List.append_nil]
  | cons byte rest =>
    rw [same.node?, World.put_place]
    refine ⟨_, rfl, ?_⟩
    have rewritten := same.put place (.file (written ++ byte :: rest))
    rwa [World.put_put] at rewritten

theorem flush_fills (fills : outlet.Fills base place content) :
    ∃ world, outlet.flush = (⟨world, .file place .empty⟩, none) ∧
      world.SameFiles (base.put place (.file content)) := by
  obtain ⟨written, pending, target, same, rfl⟩ := fills
  obtain ⟨world, appended, same⟩ := append_fills same pending.content
  refine ⟨world, ?_, same⟩
  unfold flush
  rw [target]
  simp only
  rw [appended]

/- Bytes that go past the buffer must not overtake others, so nothing may wait there. -/
theorem accept_fills (fills : outlet.Fills base place content) {bytes : Bytes}
    (room : bufferSize ≤ bytes.length → ∀ pending, outlet.target = .file place pending →
      pending.content = []) :
    ∃ next, outlet.accept bytes = (next, none) ∧ next.Fills base place (content ++ bytes) := by
  obtain ⟨written, pending, target, same, rfl⟩ := fills
  unfold accept
  rw [target]
  simp only
  by_cases long : bufferSize ≤ bytes.length
  · obtain ⟨world, appended, same⟩ := append_fills same bytes
    have waiting := room long pending target
    rw [if_pos long, appended]
    exact ⟨_, rfl, written ++ bytes, pending, rfl, same, by simp [waiting]⟩
  · rw [if_neg long]
    exact ⟨_, rfl, written, pending.push bytes, rfl, same, by simp⟩

theorem write_fills (fills : outlet.Fills base place content) (bytes : Bytes) :
    ∃ next, outlet.write bytes = (next, none) ∧ next.Fills base place (content ++ bytes) := by
  unfold write
  split
  · obtain ⟨world, flushed, same⟩ := flush_fills fills
    have emptied : Fills base place ⟨world, .file place .empty⟩ content :=
      ⟨content, .empty, rfl, same, List.append_nil content⟩
    rw [flushed]
    apply accept_fills emptied
    rintro _ pending ⟨⟩
    rfl
  · rename_i fits
    apply accept_fills fills
    intro long pending target
    have size : pending.size + bytes.length ≤ bufferSize := by simpa [overflows, target] using fits
    apply List.eq_nil_of_length_eq_zero
    rw [Tape.length_content]
    omega

theorem takes_fills (base : World) (place : Location) :
    Sink.Takes (Fills base place) fun _ _ => True where
  note := by
    rintro outlet taken ⟨written, pending, target, same, content⟩ text
    obtain ⟨kept, noted⟩ := outlet.note_world text
    exact ⟨written, pending, kept.trans target, noted.trans same, content⟩
  write fills _ := write_fills fills _

theorem append_output {world : World} {written : Bytes}
    (same : world.SameFiles (base.put place (.file written))) (bytes : Bytes) :
    (world.append place bytes).1.output = world.output := by
  unfold World.append
  split
  · rfl
  · rw [same.node?, World.put_place]
    rfl

theorem flush_output (fills : outlet.Fills base place content) :
    outlet.flush.1.world.output = outlet.world.output := by
  obtain ⟨written, pending, target, same, _⟩ := fills
  have kept := append_output same pending.content
  unfold flush
  rw [target]
  simp only
  split
  · rename_i appended
    rwa [appended] at kept
  · rename_i appended
    rwa [appended] at kept

theorem accept_output (fills : outlet.Fills base place content) (bytes : Bytes) :
    (outlet.accept bytes).1.world.output = outlet.world.output := by
  obtain ⟨written, pending, target, same, _⟩ := fills
  unfold accept
  rw [target]
  simp only
  split
  · exact append_output same bytes
  · rfl

theorem write_output (fills : outlet.Fills base place content) (bytes : Bytes) :
    (outlet.write bytes).1.world.output = outlet.world.output := by
  unfold write
  split
  · have kept := flush_output fills
    obtain ⟨world, flushed, same⟩ := flush_fills fills
    have emptied : Fills base place ⟨world, .file place .empty⟩ content :=
      ⟨content, .empty, rfl, same, List.append_nil content⟩
    rw [flushed] at kept ⊢
    exact (accept_output emptied bytes).trans kept
  · exact accept_output fills bytes

def FillsAlone (base : World) (place : Location) (outlet : Outlet) (content : Bytes) : Prop :=
  Fills base place outlet content ∧ outlet.world.output = base.output

theorem takes_fillsAlone (base : World) (place : Location) :
    Sink.Takes (FillsAlone base place) fun _ _ => True :=
  (takes_fills base place).knowing (fun _ _ => id) fun _ _ bytes fills alone =>
    (write_output fills bytes).trans alone

end File

section Standard

structure Prints (base : World) (outlet : Outlet) (content : Bytes) : Prop where
  target : outlet.target = .standard
  same : outlet.world.SameFiles base
  printed : outlet.world.output.content = base.output.content ++ content

theorem takes_prints (base : World) : Sink.Takes (Prints base) fun _ _ => True where
  note := by
    intro outlet taken prints text
    obtain ⟨kept, noted⟩ := outlet.note_world text
    exact ⟨kept.trans prints.target, noted.trans prints.same, prints.printed⟩
  write := by
    intro outlet taken bytes prints _
    have written : Sink.write outlet bytes =
        ({ outlet with world := outlet.world.send .output bytes }, none) := by
      change outlet.write bytes = _
      simp [write, overflows, accept, prints.target]
    have same := (World.SameFiles.send outlet.world .output bytes).trans prints.same
    exact ⟨_, written, prints.target, same, by simp [World.send, prints.printed]⟩

end Standard

section Full

variable {base : World} {place : Location} {outlet : Outlet} {content : Bytes}

/- All the content still waits in the buffer. -/
structure Waits (base : World) (place : Location) (outlet : Outlet) (content : Bytes) : Prop where
  pending : ∃ pending, outlet.target = .file place pending ∧ pending.content = content
  same : outlet.world.SameFiles base
  fits : content.length ≤ bufferSize

def Stays (content bytes : Bytes) : Prop :=
  bytes.length < bufferSize ∧ content.length + bytes.length ≤ bufferSize

/- A device without room takes nothing at all, and nothing else. -/
theorem append_full {world : World} (same : world.SameFiles base)
    (full : base.node? place = some .full) (bytes : Bytes) :
    world.append place bytes = (world, if bytes = [] then none else some .noSpace) := by
  unfold World.append
  rw [same.node?, full]
  cases bytes <;> rfl

theorem flush_waits (waits : outlet.Waits base place content) (full : base.node? place = some .full) :
    ∃ next, outlet.flush = (next, if content = [] then none else some .noSpace) ∧
      next.Waits base place content := by
  obtain ⟨pending, target, rfl⟩ := waits.pending
  unfold flush
  rw [target]
  simp only
  rw [append_full waits.same full]
  by_cases nothing : pending.content = []
  · rw [if_pos nothing]
    exact ⟨_, rfl, ⟨.empty, rfl, nothing.symm⟩, waits.same, waits.fits⟩
  · rw [if_neg nothing]
    exact ⟨_, rfl, ⟨pending, rfl, rfl⟩, waits.same, waits.fits⟩

theorem accept_long (waits : outlet.Waits base place content) (full : base.node? place = some .full)
    {bytes : Bytes} (long : bufferSize ≤ bytes.length) :
    ∃ next, outlet.accept bytes = (next, some .noSpace) ∧ next.world.SameFiles base := by
  obtain ⟨pending, target, _⟩ := waits.pending
  have some : bytes ≠ [] := by
    rintro rfl
    contradiction
  unfold accept
  rw [target]
  simp only
  rw [if_pos long, append_full waits.same full, if_neg some]
  exact ⟨_, rfl, waits.same⟩

theorem write_waits (waits : outlet.Waits base place content) {bytes : Bytes}
    (stays : Stays content bytes) :
    ∃ next, outlet.write bytes = (next, none) ∧ next.Waits base place (content ++ bytes) := by
  obtain ⟨pending, target, rfl⟩ := waits.pending
  obtain ⟨short, room⟩ := stays
  rw [Tape.length_content] at room
  have fits : ¬ outlet.overflows bytes = true := by simpa [overflows, target] using room
  unfold write
  rw [if_neg fits]
  unfold accept
  rw [target]
  simp only
  rw [if_neg (Nat.not_le.mpr short)]
  refine ⟨_, rfl, ⟨pending.push bytes, rfl, Tape.content_push pending bytes⟩, waits.same, ?_⟩
  simpa using room

theorem write_refused (waits : outlet.Waits base place content) (full : base.node? place = some .full)
    {bytes : Bytes} (leaves : ¬ Stays content bytes) :
    ∃ next, outlet.write bytes = (next, some .noSpace) ∧ next.world.SameFiles base := by
  obtain ⟨pending, target, waiting⟩ := waits.pending
  have size : pending.size = content.length := by rw [← waiting, Tape.length_content]
  unfold write
  by_cases beyond : outlet.overflows bytes = true
  · obtain ⟨next, flushed, kept⟩ := flush_waits waits full
    have large : bufferSize < content.length + bytes.length := by
      simpa [overflows, target, size] using beyond
    rw [if_pos beyond, flushed]
    by_cases nothing : content = []
    · rw [if_pos nothing]
      apply accept_long kept full
      simp only [nothing, List.length_nil] at large
      omega
    · rw [if_neg nothing]
      exact ⟨next, rfl, kept.same⟩
  · have small : content.length + bytes.length ≤ bufferSize := by
      simpa [overflows, target, size] using beyond
    have long : bufferSize ≤ bytes.length := by
      unfold Stays at leaves
      omega
    rw [if_neg beyond]
    exact accept_long waits full long

theorem takes_waits (base : World) (place : Location) : Sink.Takes (Waits base place) Stays where
  note := by
    intro outlet taken waits text
    obtain ⟨pending, target, waiting⟩ := waits.pending
    obtain ⟨kept, noted⟩ := outlet.note_world text
    exact ⟨⟨pending, kept.trans target, waiting⟩, noted.trans waits.same, waits.fits⟩
  write waits stays := write_waits waits stays

theorem refuses_waits (full : base.node? place = some .full) :
    Sink.Refuses (Waits base place) Stays (fun outlet _ => outlet.world.SameFiles base) .noSpace where
  idle waits := ⟨by decide, by simpa using waits.fits⟩
  write waits leaves := write_refused waits full leaves

end Full

end Outlet

end WhitespaceAsm
