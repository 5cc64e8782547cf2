import EntitySdl.Files.World
import EntitySdl.Proofs.Success
import EntitySdl.Proofs.Trees

/-! # Worlds that grow

A world grows by new directories alone when a directory is created with those around
it that are missing, whether that succeeds or fails on the way.  Where it succeeds,
the directory is there, and creating it again changes nothing.
-/
namespace EntitySdl
namespace World

variable {world between later : World} {path : String} {place : Place} {node : Node}

/-! ### Where paths lead -/

theorem locate_eq_ok_iff : world.locate path = .ok place ↔ path.isEmpty = false ∧
    world.tree.follow (if Path.isAbsolute path then [] else world.directory) (Tree.pieces path) =
      .ok place := by
  unfold locate
  split
  · rename_i h
    simp [h]
  · rename_i h
    simp [h]

/-- In a closed tree, a path leads into a directory, whether there is something at its
end or not. -/
theorem outer_of_locate (h : world.tree.IsClosed) (hlocate : world.locate path = .ok place) :
    world.tree.node? place.dropLast = some .directory := by
  obtain ⟨hpath, hfollow⟩ := locate_eq_ok_iff.mp hlocate
  cases hpieces : Tree.pieces path with
  | cons => exact h.follow hfollow (by rw [hpieces]; simp)
  | nil =>
    cases habsolute : Path.isAbsolute path with
    | false => exact absurd hpieces (Tree.pieces_ne_nil hpath habsolute)
    | true =>
      rw [hpieces, habsolute] at hfollow
      cases hfollow
      rfl

/-- What is written to a path goes where the path leads, unless a directory is there or
asked for. -/
theorem target_eq_ok_iff : world.target path = .ok place ↔ world.locate path = .ok place ∧
    Tree.asksDirectory path = false ∧ world.tree.node? place ≠ some .directory := by
  unfold target
  rw [bind_eq_ok_iff]
  refine ⟨?_, fun ⟨hlocate, hasks, hnode⟩ => ⟨place, hlocate, by simp [hasks, hnode]; rfl⟩⟩
  rintro ⟨found, hlocate, h⟩
  split at h
  · cases h
  · rename_i hcondition
    cases h
    simp only [Bool.or_eq_true, not_or, Bool.not_eq_true, beq_iff_eq] at hcondition
    exact ⟨hlocate, hcondition⟩

/-- A directory is created where a path leads, if nothing is there. -/
theorem vacancy_eq_ok_iff : world.vacancy path = .ok place ↔
    world.locate path = .ok place ∧ world.tree.node? place = none := by
  unfold vacancy
  rw [bind_eq_ok_iff]
  refine ⟨?_, fun ⟨hlocate, hnode⟩ => ⟨place, hlocate, by simp [hnode]; rfl⟩⟩
  rintro ⟨found, hlocate, h⟩
  split at h
  · cases h
  · rename_i hcondition
    cases h
    exact ⟨hlocate, by simpa using hcondition⟩

/-- A path leads to a file or a directory. -/
def Has (world : World) (path : String) : Prop := ∃ found, world.find path = .ok found

/-- A path leads to a directory. -/
def HasDirectory (world : World) (path : String) : Prop :=
  ∃ place, world.locate path = .ok place ∧ world.tree.kind? place = some .directory

/-- A path leads to a file, which can be replaced. -/
def HasFile (world : World) (path : String) (place : Place) : Prop :=
  world.locate path = .ok place ∧ world.tree.kind? place = some .file ∧
    Tree.asksDirectory path = false

/-- A path with a slash at its end does not lead to a file. -/
theorem find_eq_ok_iff : world.find path = .ok (place, node) ↔ world.locate path = .ok place ∧
    world.tree.node? place = some node ∧ (node.kind = .file → Tree.asksDirectory path = false) := by
  rw [find, bind_eq_ok_iff]
  constructor
  · rintro ⟨found, hlocate, h⟩
    cases hnode : world.tree.node? found with
    | none =>
      rw [hnode] at h
      cases h
    | some there =>
      rw [hnode] at h
      cases there with
      | directory =>
        cases h
        exact ⟨hlocate, hnode, fun hkind => by cases hkind⟩
      | file content =>
        simp only at h
        split at h
        · cases h
        · rename_i hasks
          cases h
          exact ⟨hlocate, hnode, fun _ => by simpa using hasks⟩
  · rintro ⟨hlocate, hnode, hasks⟩
    refine ⟨place, hlocate, ?_⟩
    rw [hnode]
    cases node with
    | directory => rfl
    | file => simp only [hasks rfl, Bool.false_eq_true, if_false, pure, Except.pure]

theorem exists_file_of_kind? {tree : Tree} (h : tree.kind? place = some .file) :
    ∃ content, tree.node? place = some (.file content) := by
  obtain ⟨node, hnode, hkind⟩ := Option.map_eq_some_iff.mp h
  cases node with
  | directory => cases hkind
  | file content => exact ⟨content, hnode⟩

theorem find_directory_iff :
    (∃ place, world.find path = .ok (place, .directory)) ↔ world.HasDirectory path := by
  simp [find_eq_ok_iff, HasDirectory, Tree.kind?_eq_directory_iff, Node.kind]

theorem has_iff : world.Has path ↔ world.HasDirectory path ∨ ∃ place, world.HasFile path place := by
  rw [Has, Prod.exists]
  constructor
  · rintro ⟨place, node, hfind⟩
    cases node with
    | directory => exact .inl (find_directory_iff.mp ⟨place, hfind⟩)
    | file content =>
      obtain ⟨hlocate, hnode, hasks⟩ := find_eq_ok_iff.mp hfind
      exact .inr ⟨place, hlocate, Tree.kind?_of_node? hnode, hasks rfl⟩
  · rintro (h | ⟨place, hlocate, hkind, hasks⟩)
    · obtain ⟨place, hfind⟩ := find_directory_iff.mpr h
      exact ⟨place, _, hfind⟩
    · obtain ⟨content, hnode⟩ := exists_file_of_kind? hkind
      exact ⟨place, _, find_eq_ok_iff.mpr ⟨hlocate, hnode, fun _ => hasks⟩⟩

/-! ### Worlds that extend others -/

/-- Paths start at the same directory, in a tree that extends the other. -/
structure Extends (world later : World) : Prop where
  /-- The working directory is the same. -/
  directory : later.directory = world.directory
  /-- The tree extends the other. -/
  tree : world.tree.Extends later.tree

@[refl] theorem Extends.refl (world : World) : world.Extends world := ⟨rfl, .refl _⟩

theorem Extends.trans (h : world.Extends between) (hlater : between.Extends later) :
    world.Extends later :=
  ⟨hlater.directory.trans h.directory, h.tree.trans hlater.tree⟩

theorem Extends.locate (h : world.Extends later) (hlocate : world.locate path = .ok place) :
    later.locate path = .ok place := by
  rw [locate_eq_ok_iff] at hlocate ⊢
  rw [h.directory]
  exact ⟨hlocate.1, h.tree.follow hlocate.2⟩

theorem Extends.hasDirectory (h : world.Extends later) (hpath : world.HasDirectory path) :
    later.HasDirectory path := by
  obtain ⟨place, hlocate, hkind⟩ := hpath
  exact ⟨place, h.locate hlocate, h.tree place _ hkind⟩

theorem Extends.hasFile (h : world.Extends later) (hpath : world.HasFile path place) :
    later.HasFile path place :=
  ⟨h.locate hpath.1, h.tree place _ hpath.2.1, hpath.2.2⟩

theorem Extends.has (h : world.Extends later) (hpath : world.Has path) : later.Has path := by
  rw [has_iff] at hpath ⊢
  exact hpath.imp h.hasDirectory fun ⟨place, hfile⟩ => ⟨place, h.hasFile hfile⟩

/-- A world with a node put at a place. -/
def put (world : World) (place : Place) (node : Node) : World :=
  { world with tree := world.tree.put place node }

theorem extends_put (hplace : place ≠ [])
    (h : world.tree.kind? place = none ∨ world.tree.kind? place = some node.kind) :
    world.Extends (world.put place node) :=
  ⟨rfl, Tree.extends_put hplace h⟩

theorem ne_nil_of_node? (h : world.tree.node? place ≠ some .directory) : place ≠ [] := by
  rintro rfl
  exact h rfl

/-! ### New directories -/

/-- A world that differs from another by new directories at most, each of them where one
of some paths leads. -/
structure Grows (paths : List String) (world later : World) : Prop where
  /-- The working directory is the same. -/
  directory : later.directory = world.directory
  /-- The nodes are the same but for the new directories. -/
  nodes : ∀ place, later.tree.node? place = world.tree.node? place ∨
    world.tree.node? place = none ∧ later.tree.node? place = some .directory ∧
      ∃ path ∈ paths, later.locate path = .ok place
  /-- Each of the new directories stands in a directory. -/
  closed : world.tree.IsClosed → later.tree.IsClosed
  /-- There are no new files. -/
  files : later.tree.files = world.tree.files

namespace Grows

variable {paths more : List String}

@[refl] theorem refl (paths : List String) (world : World) : Grows paths world world :=
  ⟨rfl, fun _ => .inl rfl, id, rfl⟩

theorem toExtends (h : Grows paths world later) : world.Extends later := by
  refine ⟨h.directory, fun place kind hkind => ?_⟩
  rcases h.nodes place with hsame | ⟨hnone, -, -⟩
  · rwa [Tree.kind?, hsame]
  · rw [Tree.kind?, hnone] at hkind
    cases hkind

theorem mono (h : Grows paths world later) (hsub : paths ⊆ more) : Grows more world later :=
  ⟨h.directory, fun place => (h.nodes place).imp_right fun ⟨hnone, hnew, path, hmem, hlocate⟩ =>
    ⟨hnone, hnew, path, hsub hmem, hlocate⟩, h.closed, h.files⟩

theorem trans (h : Grows paths world between) (hlater : Grows paths between later) :
    Grows paths world later := by
  refine ⟨hlater.directory.trans h.directory, fun place => ?_, hlater.closed ∘ h.closed,
    hlater.files.trans h.files⟩
  rcases h.nodes place with hsame | ⟨hnone, hnew, path, hmem, hlocate⟩
  · rw [← hsame]
    exact hlater.nodes place
  · exact .inr ⟨hnone, hlater.toExtends.tree.directory hnew, path, hmem,
      hlater.toExtends.locate hlocate⟩

end Grows

/-- A new directory where a path leads. -/
theorem grows_put (h : world.vacancy path = .ok place) :
    Grows [path] world (world.put place .directory) := by
  obtain ⟨hlocate, hnone⟩ := vacancy_eq_ok_iff.mp h
  have hplace : place ≠ [] := ne_nil_of_node? (by rw [hnone]; simp)
  have hextends : world.Extends (world.put place .directory) :=
    extends_put hplace (.inl (by rw [Tree.kind?, hnone]; rfl))
  refine ⟨rfl, fun other => ?_, fun hclosed =>
    hclosed.put hplace hextends.tree (outer_of_locate hclosed hlocate),
    Tree.files_put_directory hnone⟩
  have hnode : (world.tree.put place .directory).node? other = _ := Tree.node?_put hplace other
  by_cases hother : other = place
  · subst hother
    rw [if_pos rfl] at hnode
    exact .inr ⟨hnone, hnode, path, List.mem_singleton_self _, hextends.locate hlocate⟩
  · rw [if_neg hother] at hnode
    exact .inl hnode

/-! ### Running -/

/-- A computation on a world, its answer and the world that it leaves. -/
def Runs {α : Type} (computation : StateM World α) (world : World) (answer : α)
    (later : World) : Prop := computation world = (answer, later)

section Running

open Workspace

variable {α β : Type} {answer : α}

theorem runs_pure_iff {value : α} :
    Runs (pure value) world answer later ↔ answer = value ∧ later = world := by
  unfold Runs
  rw [eq_comm, Prod.ext_iff]
  rfl

theorem runs_bind_iff {first : StateM World β} {next : β → StateM World α} :
    Runs (first >>= next) world answer later ↔
      ∃ value between, Runs first world value between ∧ Runs (next value) between answer later := by
  constructor
  · exact fun h => ⟨_, _, rfl, h⟩
  · rintro ⟨value, between, hfirst, hnext⟩
    unfold Runs at hfirst hnext ⊢
    rw [← hnext]
    show next (first world).1 (first world).2 = next value between
    rw [hfirst]

/-- Every computation runs. -/
theorem exists_runs (computation : StateM World α) (world : World) :
    ∃ answer later, Runs computation world answer later := ⟨_, _, rfl⟩

/-- What is answered from what a path leads to. -/
theorem runs_found_iff {f : Option Found → α} : Runs (return f (← find? path)) world answer later ↔
    answer = f ((world.find path).toOption.map fun found => ⟨found.1, found.2.kind⟩) ∧
      later = world := by
  have hrun : Runs (return f (← find? path)) world answer later ↔
      (f ((world.find path).toOption.map fun found => ⟨found.1, found.2.kind⟩), world) =
        (answer, later) := Iff.rfl
  rw [hrun, Prod.mk.injEq, eq_comm, eq_comm (a := world)]

theorem runs_pathExists_iff {answer : Bool} : Runs (pathExists path) world answer later ↔
    (answer = true ↔ world.Has path) ∧ later = world := by
  have hfound : ((world.find path).toOption.map fun found =>
      Found.mk found.1 found.2.kind).isSome = true ↔ world.Has path := by
    rw [Has]
    cases world.find path <;> simp [Except.toOption]
  rw [← hfound, ← Bool.eq_iff_iff]
  exact runs_found_iff

theorem runs_isDirectory_iff {answer : Bool} : Runs (isDirectory path) world answer later ↔
    (answer = true ↔ world.HasDirectory path) ∧ later = world := by
  have hfound : ((world.find path).toOption.map fun found =>
      Found.mk found.1 found.2.kind).any (fun found => found.kind == .directory) = true ↔
        world.HasDirectory path := by
    rw [← find_directory_iff]
    rcases world.find path with why | ⟨place, node⟩
    · simp [Except.toOption]
    · cases node <;> simp [Except.toOption, Node.kind]
  rw [← hfound, ← Bool.eq_iff_iff]
  exact runs_found_iff

theorem runs_makeDirectory_iff {answer : Except SystemFault Unit} :
    Runs (makeDirectory path) world answer later ↔
      (∃ place, world.vacancy path = .ok place ∧ answer = .ok () ∧
        later = world.put place .directory) ∨
      (∃ why, world.vacancy path = .error why ∧ answer = .error why ∧ later = world) := by
  have hrun : Runs (makeDirectory path) world answer later ↔
      world.putAt .directory (world.vacancy path) = (answer, later) := Iff.rfl
  rw [hrun]
  cases world.vacancy path with
  | error why => simp [putAt, eq_comm]
  | ok place => simp [putAt, put, eq_comm]

theorem runs_write_iff {content : String} {answer : Except SystemFault Unit} :
    Runs (write path content) world answer later ↔
      (∃ place, world.target path = .ok place ∧ answer = .ok () ∧
        later = world.put place (.file content)) ∨
      (∃ why, world.target path = .error why ∧ answer = .error why ∧ later = world) := by
  have hrun : Runs (write path content) world answer later ↔
      world.putAt (.file content) (world.target path) = (answer, later) := Iff.rfl
  rw [hrun]
  cases world.target path with
  | error why => simp [putAt, eq_comm]
  | ok place => simp [putAt, put, eq_comm]

/-! ### Computations that only look -/

/-- A computation leaves every world as it is. -/
def Looks (computation : StateM World α) : Prop :=
  ∀ world, ∃ answer, Runs computation world answer world

theorem looks_pure (value : α) : Looks (pure value) :=
  fun _ => ⟨value, runs_pure_iff.mpr ⟨rfl, rfl⟩⟩

theorem Looks.bind {first : StateM World β} {next : β → StateM World α} (h : Looks first)
    (hnext : ∀ value, Looks (next value)) : Looks (first >>= next) := by
  intro world
  obtain ⟨value, hfirst⟩ := h world
  obtain ⟨answer, hrest⟩ := hnext value world
  exact ⟨answer, runs_bind_iff.mpr ⟨value, world, hfirst, hrest⟩⟩

theorem runs_find (path : String) (world : World) : Runs (find? path) world
    ((world.find path).toOption.map fun found => ⟨found.1, found.2.kind⟩) world := rfl

theorem runs_read (path : String) (world : World) :
    Runs (Workspace.read path) world (world.read path) world := rfl

theorem runs_filesBelow (h : world.find path = .ok (place, .directory)) :
    Runs (Workspace.filesBelow path) world (.ok (world.tree.filesBelow place)) world :=
  congrArg (·, world) (bind_eq_ok_iff.mpr ⟨_, h, rfl⟩)

theorem looks_read (path : String) : Looks (Workspace.read path) :=
  fun world => ⟨_, runs_read path world⟩

theorem looks_pathExists (path : String) : Looks (pathExists path) := fun _ => ⟨_, rfl⟩

/-- A computation has one answer and leaves one world. -/
theorem Runs.unique {computation : StateM World α} {other : α} {last : World}
    (h : Runs computation world answer later) (hother : Runs computation world other last) :
    other = answer ∧ last = later := by
  unfold Runs at h hother
  rw [h] at hother
  cases hother
  exact ⟨rfl, rfl⟩

/-! ### Writing -/

theorem eq_of_write_error {content : String} {why : SystemFault}
    (h : Runs (write path content) world (.error why) later) : later = world := by
  rcases runs_write_iff.mp h with ⟨-, -, hanswer, -⟩ | ⟨-, -, -, hlater⟩
  · cases hanswer
  · exact hlater

theorem exists_target_of_write {content : String}
    (h : Runs (write path content) world (.ok ()) later) :
    ∃ place, world.target path = .ok place ∧ later = world.put place (.file content) := by
  rcases runs_write_iff.mp h with ⟨place, htarget, -, hlater⟩ | ⟨_, -, hanswer, -⟩
  · exact ⟨place, htarget, hlater⟩
  · cases hanswer

/-! ### Creating directories -/

variable {made answer : Except SystemFault Unit}

theorem eq_of_makeDirectory_error {why : SystemFault}
    (h : Runs (makeDirectory path) world (.error why) later) : later = world := by
  rcases runs_makeDirectory_iff.mp h with ⟨-, -, hanswer, -⟩ | ⟨-, -, -, hlater⟩
  · cases hanswer
  · exact hlater

/-- Creating one directory, where a directory that is there will do. -/
theorem grows_of_makeDirectory (hmade : Runs (makeDirectory path) world made between)
    (hsettle : Runs (createInner.settle path made) between answer later) :
    Grows [path] world later ∧ (answer = .ok () → later.HasDirectory path) := by
  rcases runs_makeDirectory_iff.mp hmade with ⟨place, hvacancy, rfl, rfl⟩ | ⟨why, -, rfl, rfl⟩
  · obtain ⟨rfl, rfl⟩ := runs_pure_iff.mp hsettle
    have hgrows := grows_put hvacancy
    obtain ⟨hlocate, hnone⟩ := vacancy_eq_ok_iff.mp hvacancy
    refine ⟨hgrows, fun _ => ⟨place, hgrows.toExtends.locate hlocate, ?_⟩⟩
    have hplace : place ≠ [] := ne_nil_of_node? (by rw [hnone]; simp)
    exact (Tree.kind?_put hplace place).trans (if_pos rfl)
  · obtain ⟨found, middle, hfound, hanswer⟩ := runs_bind_iff.mp hsettle
    obtain ⟨hfound, rfl⟩ := runs_isDirectory_iff.mp hfound
    obtain ⟨rfl, rfl⟩ := runs_pure_iff.mp hanswer
    refine ⟨.refl _ _, fun h => hfound.mp ?_⟩
    cases found with
    | true => rfl
    | false => cases h

/-- **Creating directories.**  Whether that succeeds or not, nothing but directories is
added, and the innermost is there when it succeeds. -/
theorem grows_of_createInner {paths : List String}
    (h : Runs (createInner paths) world answer later) :
    Grows paths world later ∧
      (answer = .ok () → ∀ path ∈ paths.head?, later.HasDirectory path) := by
  induction paths generalizing world answer later with
  | nil =>
    obtain ⟨rfl, rfl⟩ := runs_pure_iff.mp h
    exact ⟨.refl _ _, by simp⟩
  | cons path outer ih =>
    have hhead : ∀ {world later : World} {answer : Except SystemFault Unit},
        Grows [path] world later ∧ (answer = .ok () → later.HasDirectory path) →
        Grows (path :: outer) world later ∧
          (answer = .ok () → ∀ head ∈ (path :: outer).head?, later.HasDirectory head) :=
      fun h => ⟨h.1.mono (by simp), by simpa using h.2⟩
    rw [Workspace.createInner] at h
    obtain ⟨made, middle, hmade, hrest⟩ := runs_bind_iff.mp h
    split at hrest
    · -- the directory around is missing, and the attempt has changed nothing
      obtain rfl := eq_of_makeDirectory_error hmade
      obtain ⟨outcome, around, hinner, hrest⟩ := runs_bind_iff.mp hrest
      obtain ⟨hgrows, -⟩ := ih hinner
      have hgrows := hgrows.mono (List.subset_cons_self path outer)
      split at hrest
      · obtain ⟨rfl, rfl⟩ := runs_pure_iff.mp hrest
        exact ⟨hgrows, nofun⟩
      · obtain ⟨made, _, hmade, hsettle⟩ := runs_bind_iff.mp hrest
        obtain ⟨hgrows', hdirectory⟩ := hhead (grows_of_makeDirectory hmade hsettle)
        exact ⟨hgrows.trans hgrows', hdirectory⟩
    · exact hhead (grows_of_makeDirectory hmade hrest)

/-- Creating a directory that is there changes nothing. -/
theorem runs_createInner_again {outer : List String} (h : world.HasDirectory path) :
    Runs (createInner (path :: outer)) world (.ok ()) world := by
  obtain ⟨place, hlocate, hkind⟩ := h
  have hvacancy : world.vacancy path = .error .exists := by
    have hnode := Tree.kind?_eq_directory_iff.mp hkind
    rw [vacancy, hlocate]
    simp only [bind, Except.bind, hnode, Option.isSome_some, if_true]
    rfl
  rw [createInner]
  refine runs_bind_iff.mpr ⟨_, _, runs_makeDirectory_iff.mpr (.inr ⟨_, hvacancy, rfl, rfl⟩), ?_⟩
  have hfound : Runs (isDirectory path) world true world :=
    runs_isDirectory_iff.mpr ⟨iff_of_true rfl ⟨place, hlocate, hkind⟩, rfl⟩
  exact runs_bind_iff.mpr ⟨_, _, hfound, runs_pure_iff.mpr ⟨rfl, rfl⟩⟩

end Running

end World
end EntitySdl
