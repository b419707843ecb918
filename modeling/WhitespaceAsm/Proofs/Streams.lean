import WhitespaceAsm.Outlet
import WhitespaceAsm.Proofs.Files

/-! Two worlds side by side, in which the same is done but for what is noted on standard error. The
notes are heard in one world only; whatever else is said there is said in both, in the same order.
Writing never touches the program's own streams but through their places in the tree, and these stay
where they are. -/
namespace WhitespaceAsm

inductive Utterance where
  /-- A note to the user. -/
  | info (text : String)
  /-- Any other line. -/
  | line (text : String)
  /-- Bytes written to a file that is standard error itself. -/
  | device (content : Bytes)
  deriving DecidableEq, Repr

namespace Utterance

def bytes : Utterance → Bytes
  | info text => Text.bytes (s!"INFO: {text}" ++ "\n")
  | line text => Text.bytes (text ++ "\n")
  | device content => content

def isInfo : Utterance → Bool
  | info _ => true
  | _ => false

def transcript (said : List Utterance) : Bytes := said.flatMap bytes

def withoutInfo (said : List Utterance) : List Utterance := said.filter fun one => !one.isInfo

theorem transcript_concat (said : List Utterance) (last : Utterance) :
    transcript (said ++ [last]) = transcript said ++ last.bytes := by
  simp [transcript]

theorem withoutInfo_info (said : List Utterance) (text : String) :
    withoutInfo (said ++ [.info text]) = withoutInfo said := by
  simp [withoutInfo, isInfo]

theorem withoutInfo_other (said : List Utterance) {last : Utterance} (other : last.isInfo = false) :
    withoutInfo (said ++ [last]) = withoutInfo said ++ [last] := by
  simp [withoutInfo, other]

theorem withoutInfo_notes {said : List Utterance} (notes : ∀ one ∈ said, one.isInfo = true) :
    withoutInfo said = [] := by
  apply List.filter_eq_nil_iff.mpr
  intro one member
  simp [notes one member]

end Utterance

namespace World

/- Directories and the program's own streams. No write makes, moves or removes one. -/
def isFixture : Node → Bool
  | .directory | .channel _ => true
  | _ => false

structure SameFixtures (a b : World) : Prop where
  here : a.here = b.here
  node? : ∀ location node, isFixture node = true →
    (a.node? location = some node ↔ b.node? location = some node)

variable {a b base quiet verbose : World} {place : Location}

namespace SameFixtures

theorem refl (world : World) : world.SameFixtures world := ⟨rfl, fun _ _ _ => Iff.rfl⟩

theorem trans {c : World} (first : a.SameFixtures b) (second : b.SameFixtures c) : a.SameFixtures c :=
  ⟨first.here.trans second.here, fun location node fixed =>
    (first.node? location node fixed).trans (second.node? location node fixed)⟩

theorem directories (same : a.SameFixtures b) : a.SameDirectories b :=
  fun location => same.node? location .directory rfl

theorem put (world : World) {node : Node} (loose : ∀ old ∈ world.node? place, isFixture old = false)
    (added : isFixture node = false) : (world.put place node).SameFixtures world := by
  refine ⟨rfl, fun location other fixed => ?_⟩
  by_cases there : location = place
  · subst there
    have away : some node ≠ some other := by
      rintro ⟨⟩
      simp [added] at fixed
    have before : world.node? location ≠ some other := by
      intro found
      simp [loose other found] at fixed
    simp [away, before]
  · rw [put_other _ _ there]

theorem send (world : World) (channel : Channel) (content : Bytes) :
    (world.send channel content).SameFixtures world := by
  cases channel <;> exact ⟨rfl, fun _ _ _ => Iff.rfl⟩

theorem openAt {world opened : World} (made : world.openAt place = .ok opened) :
    opened.SameFixtures world := by
  by_cases vacant : world.Vacant place
  · rw [openAt_vacant vacant] at made
    cases made
    refine put world ?_ rfl
    intro old found
    rcases vacant with none | ⟨content, file⟩
    · simp [none] at found
    · rw [file] at found
      cases found
      rfl
  · rw [openAt_occupied vacant made]
    exact refl world

theorem append (world : World) (place : Location) (content : Bytes) :
    (world.append place content).1.SameFixtures world := by
  unfold World.append
  split
  · exact refl world
  · cases found : world.node? place with
    | none => exact refl world
    | some node =>
      cases node with
      | file old => exact put world (by simp [found, isFixture]) rfl
      | stream old => exact put world (by simp [found, isFixture]) rfl
      | channel channel => exact send world channel content
      | directory => exact refl world
      | locked => exact refl world
      | full => exact refl world
      | detached => exact refl world

end SameFixtures

def LeadsToError (world : World) (text : String) : Prop :=
  ∃ place, world.Makes text place ∧ world.node? place = some (.channel .error)

/- What was done in both worlds since the base world is the same, but for notes in one of them. What may
be said is up to a predicate. -/
structure Echoes (may : Utterance → Prop) (base quiet verbose : World) : Prop where
  files : verbose.SameFiles quiet
  output : verbose.output = quiet.output
  fixtures : quiet.SameFixtures base
  error : ∃ said, (∀ one ∈ said, may one) ∧
    quiet.error.content = base.error.content ++ Utterance.transcript (Utterance.withoutInfo said) ∧
    verbose.error.content = base.error.content ++ Utterance.transcript said

namespace Echoes

variable {may : Utterance → Prop}

theorem refl (may : Utterance → Prop) (base : World) : base.Echoes may base base where
  files := .refl base
  output := rfl
  fixtures := .refl base
  error := ⟨[], by simp, by simp [Utterance.transcript, Utterance.withoutInfo],
    by simp [Utterance.transcript]⟩

variable (echoes : base.Echoes may quiet verbose)
include echoes

theorem say_info {text : String} (allowed : may (.info text)) :
    base.Echoes may quiet (verbose.say s!"INFO: {text}") where
  files := (SameFiles.send verbose .error _).trans echoes.files
  output := echoes.output
  fixtures := echoes.fixtures
  error := by
    obtain ⟨said, all, before, after⟩ := echoes.error
    refine ⟨said ++ [.info text], ?_, ?_, ?_⟩
    · simpa [or_imp, forall_and] using ⟨all, allowed⟩
    · rw [Utterance.withoutInfo_info, before]
    · rw [Utterance.transcript_concat, ← List.append_assoc, ← after]
      exact Tape.content_push verbose.error _

/- Anything else is sent to standard error in both worlds. -/
theorem send_error (one : Utterance) (other : one.isInfo = false) (allowed : may one) :
    base.Echoes may (quiet.send .error one.bytes) (verbose.send .error one.bytes) where
  files := (SameFiles.send verbose .error _).trans
    (echoes.files.trans (SameFiles.send quiet .error _).symm)
  output := echoes.output
  fixtures := (SameFixtures.send quiet .error _).trans echoes.fixtures
  error := by
    obtain ⟨said, all, before, after⟩ := echoes.error
    refine ⟨said ++ [one], ?_, ?_, ?_⟩
    · simpa [or_imp, forall_and] using ⟨all, allowed⟩
    · rw [Utterance.withoutInfo_other said other, Utterance.transcript_concat, ← List.append_assoc,
        ← before]
      exact Tape.content_push quiet.error _
    · rw [Utterance.transcript_concat, ← List.append_assoc, ← after]
      exact Tape.content_push verbose.error _

theorem send_output (content : Bytes) :
    base.Echoes may (quiet.send .output content) (verbose.send .output content) where
  files := (SameFiles.send verbose .output _).trans
    (echoes.files.trans (SameFiles.send quiet .output _).symm)
  output := by simp [World.send, echoes.output]
  fixtures := (SameFixtures.send quiet .output _).trans echoes.fixtures
  error := echoes.error

theorem put {node : Node} (kept : (quiet.put place node).SameFixtures quiet) :
    base.Echoes may (quiet.put place node) (verbose.put place node) where
  files := echoes.files.put place node
  output := echoes.output
  fixtures := kept.trans echoes.fixtures
  error := echoes.error

/- Bytes written at a place are heard only where that place is standard error. -/
theorem append (place : Location) (content : Bytes)
    (heard : base.node? place = some (.channel .error) → may (.device content)) :
    base.Echoes may (quiet.append place content).1 (verbose.append place content).1 ∧
      (verbose.append place content).2 = (quiet.append place content).2 := by
  have kept := SameFixtures.append quiet place content
  unfold World.append at kept ⊢
  split
  · exact ⟨echoes, rfl⟩
  · rename_i some
    rw [if_neg some] at kept
    rw [echoes.files.node?]
    cases found : quiet.node? place with
    | none => exact ⟨echoes, rfl⟩
    | some node =>
      rw [found] at kept
      cases node with
      | file old => exact ⟨echoes.put kept, rfl⟩
      | stream old => exact ⟨echoes.put kept, rfl⟩
      | channel channel =>
        cases channel with
        | output => exact ⟨echoes.send_output content, rfl⟩
        | error =>
          have fixed := (echoes.fixtures.node? place (.channel .error) rfl).mp found
          exact ⟨echoes.send_error (.device content) rfl (heard fixed), rfl⟩
      | directory => exact ⟨echoes, rfl⟩
      | locked => exact ⟨echoes, rfl⟩
      | full => exact ⟨echoes, rfl⟩
      | detached => exact ⟨echoes, rfl⟩

theorem create (text : String) :
    (∃ fault, quiet.create text = .error fault ∧ verbose.create text = .error fault) ∨
      ∃ x y place, quiet.create text = .ok (x, place) ∧ verbose.create text = .ok (y, place) ∧
        base.Echoes may x y ∧
        (base.node? place = some (.channel .error) → base.LeadsToError text) := by
  rcases echoes.files.create text with ⟨fault, loud, still⟩ | ⟨y, x, place, loud, still, same⟩
  · exact .inl ⟨fault, still, loud⟩
  · obtain ⟨found, opened⟩ := create_eq_ok_iff.mp still
    have streams := openAt_streams opened
    have others := openAt_streams (create_eq_ok_iff.mp loud).2
    refine .inr ⟨x, y, place, still, loud, ⟨same, ?_, ?_, ?_⟩, ?_⟩
    · rw [others.1, streams.1, echoes.output]
    · exact (SameFixtures.openAt opened).trans echoes.fixtures
    · rw [others.2, streams.2]
      exact echoes.error
    · intro channel
      have kept := echoes.fixtures
      have target := (target_eq_ok_iff kept.here kept.directories).mp found
      exact ⟨place, ⟨base, create_eq_ok_iff.mpr ⟨target, by rw [World.openAt, channel]⟩⟩, channel⟩

theorem write (text : String) (content : Bytes)
    (heard : base.LeadsToError text → may (.device content)) :
    base.Echoes may (quiet.write text content).1 (verbose.write text content).1 ∧
      (verbose.write text content).2 = (quiet.write text content).2 := by
  unfold World.write
  rcases echoes.create text with ⟨fault, still, loud⟩ | ⟨x, y, place, still, loud, opened, leads⟩
  · rw [still, loud]
    exact ⟨echoes, rfl⟩
  · rw [still, loud]
    exact opened.append place content fun channel => heard (leads channel)

end Echoes

end World

namespace Outlet

/- Two outlets in such worlds. Where they lead to standard error, what they write is heard there. -/
structure Echoes (may : Utterance → Prop) (base : World) (quiet verbose : Outlet) : Prop where
  target : verbose.target = quiet.target
  world : base.Echoes may quiet.world verbose.world
  heard : ∀ place pending, quiet.target = .file place pending →
    base.node? place = some (.channel .error) → ∀ content, may (.device content)

namespace Echoes

variable {may : Utterance → Prop} {base : World} {quiet verbose : Outlet}
  (echoes : Echoes may base quiet verbose)
include echoes

theorem note {text : String} (allowed : may (.info text)) :
    Echoes may base quiet (verbose.note text) :=
  ⟨echoes.target, echoes.world.say_info allowed, echoes.heard⟩

theorem waiting {place : Location} {pending : Tape} (target : quiet.target = .file place pending)
    {x y : World} (worlds : base.Echoes may x y) (left : Tape) :
    Echoes may base ⟨x, .file place left⟩ ⟨y, .file place left⟩ := by
  refine ⟨rfl, worlds, ?_⟩
  rintro _ _ ⟨⟩
  exact echoes.heard place pending target

theorem flush :
    Echoes may base quiet.flush.1 verbose.flush.1 ∧ verbose.flush.2 = quiet.flush.2 := by
  unfold Outlet.flush
  rw [echoes.target]
  cases target : quiet.target with
  | standard => exact ⟨echoes, rfl⟩
  | file place pending =>
    obtain ⟨worlds, fault⟩ := echoes.world.append place pending.content fun channel =>
      echoes.heard place pending target channel _
    simp only
    generalize quiet.world.append place pending.content = still at worlds fault ⊢
    generalize verbose.world.append place pending.content = loud at worlds fault ⊢
    obtain ⟨x, met⟩ := still
    obtain ⟨y, other⟩ := loud
    cases fault
    cases met with
    | none => exact ⟨echoes.waiting target worlds .empty, rfl⟩
    | some fault => exact ⟨echoes.waiting target worlds pending, rfl⟩

theorem accept (bytes : Bytes) :
    Echoes may base (quiet.accept bytes).1 (verbose.accept bytes).1 ∧
      (verbose.accept bytes).2 = (quiet.accept bytes).2 := by
  unfold Outlet.accept
  rw [echoes.target]
  cases target : quiet.target with
  | standard => exact ⟨⟨rfl, echoes.world.send_output bytes, by rintro _ _ ⟨⟩⟩, rfl⟩
  | file place pending =>
    simp only
    split
    · obtain ⟨worlds, fault⟩ := echoes.world.append place bytes fun channel =>
        echoes.heard place pending target channel _
      exact ⟨echoes.waiting target worlds pending, fault⟩
    · exact ⟨echoes.waiting target echoes.world _, rfl⟩

theorem write (bytes : Bytes) :
    Echoes may base (quiet.write bytes).1 (verbose.write bytes).1 ∧
      (verbose.write bytes).2 = (quiet.write bytes).2 := by
  have overflows : verbose.overflows bytes = quiet.overflows bytes := by
    rw [Outlet.overflows, Outlet.overflows, echoes.target]
  unfold Outlet.write
  rw [overflows]
  split
  · obtain ⟨flushed, fault⟩ := echoes.flush
    generalize quiet.flush = still at flushed fault ⊢
    generalize verbose.flush = loud at flushed fault ⊢
    obtain ⟨x, met⟩ := still
    obtain ⟨y, other⟩ := loud
    cases fault
    cases met with
    | none => exact flushed.accept bytes
    | some fault => exact ⟨flushed, rfl⟩
  · exact echoes.accept bytes

end Echoes

end Outlet

end WhitespaceAsm
