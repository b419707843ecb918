import WhitespaceAsm.World

/-! Paths in a world that changes. Where a path leads depends on the directories only, so writing files
leads no path astray; what is found at its end changes for those paths alone that name a written
file. -/
namespace WhitespaceAsm

theorem bind_eq_ok_iff {ε α β : Type} {first : Except ε α} {next : α → Except ε β} {b : β} :
    first >>= next = .ok b ↔ ∃ a, first = .ok a ∧ next a = .ok b := by
  cases first with
  | ok a => simp [bind, Except.bind]
  | error fault => simp [bind, Except.bind]

namespace World

variable {world a b : World} {place location : Location} {text : String}

/- The worlds differ in what was written to the streams at most. -/
structure SameFiles (a b : World) : Prop where
  here : a.here = b.here
  node? : a.node? = b.node?

namespace SameFiles

theorem refl (world : World) : world.SameFiles world := ⟨rfl, rfl⟩

theorem symm (same : a.SameFiles b) : b.SameFiles a := ⟨same.here.symm, same.node?.symm⟩

theorem trans {c : World} (first : a.SameFiles b) (second : b.SameFiles c) : a.SameFiles c :=
  ⟨first.here.trans second.here, first.node?.trans second.node?⟩

theorem send (world : World) (channel : Channel) (bytes : Bytes) :
    (world.send channel bytes).SameFiles world := by
  cases channel <;> exact ⟨rfl, rfl⟩

theorem put (same : a.SameFiles b) (place : Location) (node : Node) :
    (a.put place node).SameFiles (b.put place node) :=
  ⟨same.here, by simp [World.put, same.node?]⟩

theorem find (same : a.SameFiles b) (text : String) : a.find text = b.find text := by
  cases a
  cases b
  cases same.here
  cases same.node?
  rfl

theorem read (same : a.SameFiles b) (text : String) : a.read text = b.read text := by
  rw [World.read, World.read, same.find]

end SameFiles

@[simp] theorem put_place (world : World) (place : Location) (node : Node) :
    (world.put place node).node? place = some node := if_pos rfl

theorem put_other (world : World) (node : Node) (away : location ≠ place) :
    (world.put place node).node? location = world.node? location := if_neg away

@[simp] theorem put_here (world : World) (place : Location) (node : Node) :
    (world.put place node).here = world.here := rfl

theorem put_put (world : World) (place : Location) (first second : Node) :
    (world.put place first).put place second = world.put place second := by
  simp only [put, World.mk.injEq, true_and, and_true]
  funext other
  split <;> rfl

/- A place where a file can be written: there is one, or nothing yet. -/
def Vacant (world : World) (place : Location) : Prop :=
  world.node? place = none ∨ ∃ content, world.node? place = some (.file content)

theorem Vacant.put (world : World) (place : Location) (content : Bytes) :
    (world.put place (.file content)).Vacant place :=
  .inr ⟨content, put_place world place _⟩

theorem Vacant.not_directory (vacant : world.Vacant place) : world.node? place ≠ some .directory := by
  rcases vacant with none | ⟨content, file⟩
  · simp [none]
  · simp [file]

/- Being a directory is all that the way through a place depends on. -/
def SameDirectories (a b : World) : Prop :=
  ∀ location, a.node? location = some .directory ↔ b.node? location = some .directory

theorem sameDirectories_put (vacant : world.Vacant place) (content : Bytes) :
    world.SameDirectories (world.put place (.file content)) := by
  intro location
  by_cases there : location = place
  · subst there
    simp [vacant.not_directory]
  · rw [put_other _ _ there]

theorem enter_eq_ok_iff {done : Unit} :
    world.enter location = .ok done ↔ world.node? location = some .directory := by
  unfold enter
  split <;> simp_all

theorem child_eq_ok_iff (same : a.SameDirectories b) {name : String} :
    a.child location name = .ok place ↔ b.child location name = .ok place := by
  simp only [child, bind_eq_ok_iff, enter_eq_ok_iff, same location]

theorem walk_eq_ok_iff (same : a.SameDirectories b) {names : List String} :
    a.walk location names = .ok place ↔ b.walk location names = .ok place := by
  induction names generalizing location with
  | nil => exact Iff.rfl
  | cons name names ih =>
    simp only [walk, List.foldlM_cons, bind_eq_ok_iff, child_eq_ok_iff same] at ih ⊢
    simp only [ih]

/- Two files at one place stand in the way in the same manner. -/
theorem walk_put (world : World) (place : Location) (first second : Bytes) :
    (world.put place (.file first)).walk = (world.put place (.file second)).walk := by
  have enter : (world.put place (.file first)).enter = (world.put place (.file second)).enter := by
    funext location
    by_cases there : location = place
    · subst there
      simp [World.enter]
    · simp [World.enter, put_other _ _ there]
  unfold walk child
  rw [enter]

/- The path names this place, and not as a directory. -/
def Names (world : World) (text : String) (place : Location) : Prop :=
  ∃ path, Path.parse text = .ok path ∧ path.trailing = false ∧
    world.walk (world.origin path) path.names = .ok place

theorem find_eq_ok_iff {node : Node} :
    world.find text = .ok node ↔ ∃ path location, Path.parse text = .ok path ∧
      world.walk (world.origin path) path.names = .ok location ∧
      world.node? location = some node ∧ (node = .directory ∨ path.trailing = false) := by
  simp only [find, bind_eq_ok_iff, ← exists_and_left]
  refine exists_congr fun path => exists_congr fun location => ?_
  refine and_congr_right fun _ => and_congr_right fun _ => ?_
  cases found : world.node? location with
  | none => simp [throw, throwThe, MonadExceptOf.throw]
  | some other =>
    cases path.trailing with
    | false => cases other <;> simp [pure, Except.pure]
    | true =>
      cases other <;> simp [pure, Except.pure, throw, throwThe, MonadExceptOf.throw] <;>
        rintro rfl <;> simp

/- Whether a path can be opened for reading. A directory can, though nothing is read from it. -/
def opens (world : World) (text : String) : Bool :=
  match world.find text with
  | .ok .locked | .ok .detached | .error _ => false
  | .ok _ => true

/- Reading comes to an end. A directory fails at every read, and the device that has no room for a byte
has bytes without end. -/
def ReadsToEnd (world : World) (text : String) : Prop :=
  world.find text ≠ .ok .directory ∧ world.find text ≠ .ok .full

theorem exists_read (opened : world.opens text = true) (plain : world.find text ≠ .ok .directory) :
    ∃ content, world.read text = .ok content := by
  unfold opens at opened
  unfold read
  cases found : world.find text with
  | error fault => simp [found] at opened
  | ok node => cases node <;> simp_all [bind, Except.bind, pure, Except.pure]

theorem exists_fault (shut : world.opens text = false) : ∃ fault, world.read text = .error fault := by
  unfold opens at shut
  unfold read
  cases found : world.find text with
  | error fault => exact ⟨fault, rfl⟩
  | ok node =>
    cases node <;> simp_all [bind, Except.bind, throw, throwThe, MonadExceptOf.throw]

section Rewritten

variable (vacant : world.Vacant place)
include vacant

theorem names_put_iff {content : Bytes} :
    (world.put place (.file content)).Names text location ↔ world.Names text location := by
  have same := sameDirectories_put vacant content
  refine exists_congr fun path => and_congr_right fun _ => and_congr_right fun _ => ?_
  exact (walk_eq_ok_iff same).symm

theorem read_put_named {content : Bytes} (named : world.Names text place) :
    (world.put place (.file content)).read text = .ok content := by
  obtain ⟨path, parsed, plain, walked⟩ := (names_put_iff vacant).mpr named
  have found := find_eq_ok_iff.mpr ⟨path, place, parsed, walked, put_place world place _, .inr plain⟩
  rw [read, found]
  rfl

theorem find_put_iff (unnamed : ¬ world.Names text place) (content : Bytes) {node : Node} :
    (world.put place (.file content)).find text = .ok node ↔ world.find text = .ok node := by
  have same := sameDirectories_put vacant content
  simp only [find_eq_ok_iff]
  refine exists_congr fun path => exists_congr fun location => and_congr_right fun parsed => ?_
  rw [← walk_eq_ok_iff same]
  refine and_congr_right fun walked => ?_
  by_cases there : location = place
  · subst there
    have never {other : World} (free : other.Vacant location) :
        ¬ (other.node? location = some node ∧ (node = .directory ∨ path.trailing = false)) := by
      rintro ⟨found, rfl | plain⟩
      · exact free.not_directory found
      · exact unnamed ⟨path, parsed, plain, walked⟩
    exact iff_of_false (never (.put world location content)) (never vacant)
  · rw [put_other _ _ there]

theorem find_put_put (unnamed : ¬ world.Names text place) (first second : Bytes) :
    (world.put place (.file first)).find text = (world.put place (.file second)).find text := by
  unfold find
  cases parsed : Path.parse text with
  | error fault => rfl
  | ok path =>
    have origin : (world.put place (.file first)).origin path =
        (world.put place (.file second)).origin path := rfl
    simp only [bind, Except.bind, walk_put world place first second, origin]
    cases walked : (world.put place (.file second)).walk _ path.names with
    | error fault => rfl
    | ok location =>
      by_cases there : location = place
      · subst there
        have trailing : path.trailing = true := by
          simpa using fun plain => unnamed
            ((names_put_iff vacant).mp ⟨path, parsed, plain, walked⟩)
        simp [trailing]
      · simp [put_other _ _ there]

theorem read_put_unnamed (unnamed : ¬ world.Names text place) {found : Bytes}
    (readable : world.read text = .ok found) (content : Bytes) :
    (world.put place (.file content)).read text = .ok found := by
  obtain ⟨node, there, opened⟩ := bind_eq_ok_iff.mp readable
  exact bind_eq_ok_iff.mpr ⟨node, (find_put_iff vacant unnamed content).mpr there, opened⟩

theorem opens_put (unnamed : ¬ world.Names text place) (content : Bytes) :
    (world.put place (.file content)).opens text = world.opens text := by
  have same {node : Node} :
      (world.put place (.file content)).find text = .ok node ↔ world.find text = .ok node :=
    find_put_iff vacant unnamed content
  unfold opens
  cases before : world.find text with
  | ok node => rw [same.mpr before]
  | error fault =>
    cases after : (world.put place (.file content)).find text with
    | error fault => rfl
    | ok node =>
      rw [same.mp after] at before
      contradiction

end Rewritten

def target (world : World) (text : String) : Except Fault Location := do
  let path ← Path.parse text
  match path.names.getLast? with
  | none => throw .isADirectory
  | some name =>
    let parent ← world.walk (world.origin path) path.names.dropLast
    world.enter parent
    if path.trailing || name == "." || name == ".." then throw .isADirectory
    world.child parent name

theorem names_of_target (found : world.target text = .ok place) : world.Names text place := by
  unfold target at found
  obtain ⟨path, parsed, found⟩ := bind_eq_ok_iff.mp found
  cases last : path.names.getLast? with
  | none =>
    rw [last] at found
    contradiction
  | some name =>
    rw [last] at found
    obtain ⟨parent, walked, found⟩ := bind_eq_ok_iff.mp found
    obtain ⟨_, _, found⟩ := bind_eq_ok_iff.mp found
    split at found
    · contradiction
    · rename_i plain
      obtain ⟨before, names⟩ := List.getLast?_eq_some_iff.mp last
      refine ⟨path, parsed, by simp_all, ?_⟩
      rw [names, List.dropLast_concat] at walked
      rw [names, walk, List.foldlM_append]
      exact bind_eq_ok_iff.mpr ⟨parent, walked, by simpa using found⟩

theorem create_eq (world : World) (text : String) :
    world.create text = (do
      let place ← world.target text
      let opened ← world.openAt place
      return (opened, place)) := by
  unfold create target
  cases Path.parse text with
  | error fault => rfl
  | ok path =>
    simp only [bind, Except.bind]
    cases path.names.getLast? with
    | none => rfl
    | some name =>
      simp only
      cases world.walk (world.origin path) path.names.dropLast with
      | error fault => rfl
      | ok parent =>
        simp only
        cases world.enter parent with
        | error fault => rfl
        | ok _ =>
          simp only
          split <;> rfl

theorem create_eq_ok_iff {opened : World} :
    world.create text = .ok (opened, place) ↔
      world.target text = .ok place ∧ world.openAt place = .ok opened := by
  rw [create_eq, bind_eq_ok_iff]
  simp only [bind_eq_ok_iff, pure, Except.pure, Except.ok.injEq, Prod.mk.injEq]
  constructor
  · rintro ⟨_, found, _, made, rfl, rfl⟩
    exact ⟨found, made⟩
  · rintro ⟨found, made⟩
    exact ⟨place, found, opened, made, rfl, rfl⟩

theorem target_eq_ok_iff (here : a.here = b.here) (same : a.SameDirectories b) :
    a.target text = .ok place ↔ b.target text = .ok place := by
  unfold target
  simp only [bind_eq_ok_iff]
  refine exists_congr fun path => and_congr_right fun _ => ?_
  cases path.names.getLast? with
  | none => exact Iff.rfl
  | some name =>
    simp only [bind_eq_ok_iff, walk_eq_ok_iff same, origin, here, enter_eq_ok_iff, same _]
    refine exists_congr fun parent => and_congr_right fun _ => ?_
    refine exists_congr fun _ => and_congr_right fun _ => ?_
    split
    · exact Iff.rfl
    · exact child_eq_ok_iff same

def Makes (world : World) (text : String) (place : Location) : Prop :=
  ∃ opened, world.create text = .ok (opened, place)

def MakesFile (world : World) (text : String) (place : Location) : Prop :=
  ∃ opened, world.create text = .ok (opened, place) ∧ opened.node? place = some (.file [])

theorem openAt_vacant (vacant : world.Vacant place) :
    world.openAt place = .ok (world.put place (.file [])) := by
  unfold openAt
  rcases vacant with none | ⟨content, file⟩
  · rw [none]
  · rw [file]

/- Anything that is no file to write to is left as it is. -/
theorem openAt_occupied {opened : World} (occupied : ¬ world.Vacant place)
    (made : world.openAt place = .ok opened) : opened = world := by
  unfold openAt at made
  unfold Vacant at occupied
  split at made <;> simp_all

theorem makesFile_iff :
    world.MakesFile text place ↔ world.target text = .ok place ∧ world.Vacant place := by
  constructor
  · rintro ⟨opened, made, file⟩
    obtain ⟨found, made⟩ := create_eq_ok_iff.mp made
    refine ⟨found, Classical.byContradiction fun occupied => ?_⟩
    rw [openAt_occupied occupied made] at file
    exact occupied (.inr ⟨[], file⟩)
  · rintro ⟨found, vacant⟩
    exact ⟨_, create_eq_ok_iff.mpr ⟨found, openAt_vacant vacant⟩, put_place world place _⟩

theorem target_put_iff (vacant : world.Vacant place) (content : Bytes) :
    (world.put place (.file content)).target text = .ok location ↔
      world.target text = .ok location :=
  (target_eq_ok_iff (put_here world place _).symm (sameDirectories_put vacant content)).symm

theorem makes_put_iff (vacant : world.Vacant place) (content : Bytes) :
    (world.put place (.file content)).Makes text location ↔ world.Makes text location := by
  simp only [Makes, create_eq_ok_iff, exists_and_left, target_put_iff vacant]
  refine and_congr_right fun _ => ?_
  by_cases there : location = place
  · subst there
    rw [openAt_vacant vacant, openAt_vacant (.put world location content)]
    simp
  · unfold openAt
    rw [put_other _ _ there]
    cases world.node? location with
    | none => simp
    | some node => cases node <;> simp

theorem makesFile_put_iff (vacant : world.Vacant place) (content : Bytes) :
    (world.put place (.file content)).MakesFile text location ↔ world.MakesFile text location := by
  rw [makesFile_iff, makesFile_iff, target_put_iff vacant]
  refine and_congr_right fun _ => ?_
  by_cases there : location = place
  · subst there
    exact iff_of_true (.put world location content) vacant
  · rw [Vacant, Vacant, put_other _ _ there]

theorem write_file (made : world.MakesFile text place) (content : Bytes) :
    world.write text content = (world.put place (.file content), none) := by
  obtain ⟨found, vacant⟩ := makesFile_iff.mp made
  have created := create_eq_ok_iff.mpr ⟨found, openAt_vacant vacant⟩
  rw [write, created]
  cases content with
  | nil => rfl
  | cons byte rest => simp [append, put_put]

theorem write_unmade (unmade : ∀ place, ¬ world.Makes text place) (content : Bytes) :
    ∃ fault, world.write text content = (world, some fault) := by
  unfold write
  cases created : world.create text with
  | error fault => exact ⟨fault, rfl⟩
  | ok made => exact absurd ⟨made.1, created⟩ (unmade made.2)

theorem openAt_other {opened : World} (made : world.openAt place = .ok opened)
    (away : location ≠ place) : opened.node? location = world.node? location := by
  by_cases vacant : world.Vacant place
  · rw [openAt_vacant vacant] at made
    cases made
    exact put_other _ _ away
  · rw [openAt_occupied vacant made]

theorem openAt_streams {opened : World} (made : world.openAt place = .ok opened) :
    opened.output = world.output ∧ opened.error = world.error := by
  by_cases vacant : world.Vacant place
  · rw [openAt_vacant vacant] at made
    cases made
    exact ⟨rfl, rfl⟩
  · rw [openAt_occupied vacant made]
    exact ⟨rfl, rfl⟩

theorem append_other (content : Bytes) (away : location ≠ place) :
    (world.append place content).1.node? location = world.node? location := by
  unfold append
  split
  · rfl
  · split
    · exact put_other _ _ away
    · exact put_other _ _ away
    · rw [(SameFiles.send world _ content).node?]
    all_goals rfl

theorem write_other (unmade : ¬ world.Makes text location) (content : Bytes) :
    (world.write text content).1.node? location = world.node? location := by
  unfold write
  cases created : world.create text with
  | error fault => rfl
  | ok made =>
    obtain ⟨opened, place⟩ := made
    have away : location ≠ place := fun there => unmade ⟨opened, there ▸ created⟩
    rw [append_other content away, openAt_other (create_eq_ok_iff.mp created).2 away]

namespace SameFiles

variable (same : a.SameFiles b)
include same

theorem target (text : String) : a.target text = b.target text := by
  cases a
  cases b
  cases same.here
  cases same.node?
  rfl

theorem openAt (place : Location) :
    (∃ fault, a.openAt place = .error fault ∧ b.openAt place = .error fault) ∨
      ∃ x y, a.openAt place = .ok x ∧ b.openAt place = .ok y ∧ x.SameFiles y := by
  unfold World.openAt
  rw [same.node?]
  cases b.node? place with
  | none => exact .inr ⟨_, _, rfl, rfl, same.put place _⟩
  | some node =>
    cases node with
    | file content => exact .inr ⟨_, _, rfl, rfl, same.put place _⟩
    | stream received => exact .inr ⟨_, _, rfl, rfl, same⟩
    | full => exact .inr ⟨_, _, rfl, rfl, same⟩
    | channel channel => exact .inr ⟨_, _, rfl, rfl, same⟩
    | directory => exact .inl ⟨_, rfl, rfl⟩
    | locked => exact .inl ⟨_, rfl, rfl⟩
    | detached => exact .inl ⟨_, rfl, rfl⟩

theorem create (text : String) :
    (∃ fault, a.create text = .error fault ∧ b.create text = .error fault) ∨
      ∃ x y place, a.create text = .ok (x, place) ∧ b.create text = .ok (y, place) ∧
        x.SameFiles y := by
  rw [create_eq, create_eq, same.target]
  cases b.target text with
  | error fault => exact .inl ⟨fault, rfl, rfl⟩
  | ok place =>
    simp only [bind, Except.bind]
    rcases same.openAt place with ⟨fault, first, second⟩ | ⟨x, y, first, second, opened⟩
    · rw [first, second]
      exact .inl ⟨fault, rfl, rfl⟩
    · rw [first, second]
      exact .inr ⟨x, y, place, rfl, rfl, opened⟩

theorem append (place : Location) (content : Bytes) :
    (a.append place content).1.SameFiles (b.append place content).1 ∧
      (a.append place content).2 = (b.append place content).2 := by
  unfold World.append
  split
  · exact ⟨same, rfl⟩
  · rw [same.node?]
    cases b.node? place with
    | none => exact ⟨same, rfl⟩
    | some node =>
      cases node with
      | file old => exact ⟨same.put place _, rfl⟩
      | stream old => exact ⟨same.put place _, rfl⟩
      | channel channel =>
        exact ⟨(send a channel content).trans (same.trans (send b channel content).symm), rfl⟩
      | full => exact ⟨same, rfl⟩
      | directory => exact ⟨same, rfl⟩
      | locked => exact ⟨same, rfl⟩
      | detached => exact ⟨same, rfl⟩

theorem write (text : String) (content : Bytes) :
    (a.write text content).1.SameFiles (b.write text content).1 ∧
      (a.write text content).2 = (b.write text content).2 := by
  unfold World.write
  rcases same.create text with ⟨fault, first, second⟩ | ⟨x, y, place, first, second, opened⟩
  · rw [first, second]
    exact ⟨same, rfl⟩
  · rw [first, second]
    exact opened.append place content

end SameFiles

end World

end WhitespaceAsm
