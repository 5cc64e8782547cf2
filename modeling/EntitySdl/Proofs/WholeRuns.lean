import EntitySdl.Proofs.EmittedFiles

/-! # Whole runs

A run generates a project, emits its files and hands over the paths written.  The one
to whom they are handed works with a state of its own beside the files, which the rest
of the run does not touch.
-/
namespace EntitySdl

section Lifting

variable {σ : Type} {m : Type → Type} [Monad m] [LawfulMonad m] [Workspace m]

/-! ### Files beside a state

Whatever is done with files is done the same way where a state is carried along. -/

omit [Workspace m] in
/-- Computations one after the other are done beside a state when each of them is. -/
theorem lift_bind {α β : Type} {first : m β} {next : β → m α} {first' : StateT σ m β}
    {next' : β → StateT σ m α} (hfirst : liftM first = first')
    (hnext : ∀ value, liftM (next value) = next' value) :
    liftM (first >>= next) = first' >>= next' := by
  have hbind : (liftM (first >>= next) : StateT σ m α) =
      liftM first >>= fun value => liftM (next value) := monadLift_bind _ _
  rw [hbind, hfirst]
  exact congrArg _ (funext hnext)

namespace Workspace

theorem settle_lift (path : String) (made : Except SystemFault Unit) :
    (liftM (createInner.settle path made : m _) : StateT σ m _) = createInner.settle path made := by
  cases made with
  | ok => exact monadLift_pure _
  | error why =>
    exact lift_bind (lift_bind rfl fun _ => monadLift_pure _) fun _ => monadLift_pure _

theorem createInner_lift (paths : List String) :
    (liftM (createInner paths : m _) : StateT σ m _) = createInner paths := by
  induction paths with
  | nil => exact monadLift_pure _
  | cons path outer ih =>
    refine lift_bind rfl fun made => ?_
    split
    · -- the directory around is missing
      refine lift_bind ih fun around => ?_
      split
      · exact monadLift_pure _
      · exact lift_bind rfl fun _ => settle_lift path _
    · exact settle_lift path _

end Workspace

namespace Generate.Emitter

open Workspace

theorem createParent_lift (path : String) :
    (liftM (createParent path : m _) : StateT σ m _) = createParent path := by
  unfold createParent
  split
  · exact monadLift_pure _
  · exact lift_bind (createInner_lift _) fun _ => monadLift_pure _

theorem replace_lift (path content : String) :
    (liftM (replace path content : m _) : StateT σ m _) = replace path content := by
  refine lift_bind (createParent_lift path) fun created => ?_
  split
  · exact monadLift_pure _
  · refine lift_bind rfl fun put => ?_
    split <;> exact monadLift_pure _

theorem emit_lift (emitter : Emitter) (file : OutputFile) :
    (liftM (emitter.emit file : m _) : StateT σ m _) = emitter.emit file := by
  unfold emit
  split
  · exact replace_lift _ _
  · refine lift_bind (lift_bind rfl fun _ => monadLift_pure _) fun found => ?_
    split
    · exact monadLift_pure _
    · exact replace_lift _ _

theorem emitAll_lift (emitter : Emitter) (files : List OutputFile) (deliveries : Deliveries) :
    (liftM (emitter.emitAll files deliveries : m _) : StateT σ m _) =
      emitter.emitAll files deliveries := by
  induction files generalizing deliveries with
  | nil => exact monadLift_pure _
  | cons file files ih =>
    refine lift_bind (emit_lift emitter file) fun emitted => ?_
    split
    · exact monadLift_pure _
    · exact ih _

end Generate.Emitter

end Lifting

namespace Generate
namespace Generator

open World

variable {σ : Type} {g : Generator} {schema : Schema}
  {onComplete : List String → StateT σ (StateM World) Unit} {state state' : σ}
  {world later : World}

/-- What a run answers from a state and a world, with those it leaves. -/
def runFrom (g : Generator) (onComplete : List String → StateT σ (StateM World) Unit)
    (schema : Schema) (state : σ) (world : World) : (Except Fault RunReport × σ) × World :=
  g.run onComplete schema state world

/-- The state and the world after paths have been handed over. -/
def handOver (onComplete : List String → StateT σ (StateM World) Unit) (paths : List String)
    (state : σ) (world : World) : σ × World :=
  ((onComplete paths state world).1.2, (onComplete paths state world).2)

/-- What follows an emission begins with the world that it leaves, and with the state as
it was. -/
theorem emitAll_bind {α : Type} {files : List OutputFile} {result : Except Fault Unit × Deliveries}
    (h : Runs ((Emitter.ofConfig g.config).emitAll files {}) world result later)
    (next : Except Fault Unit × Deliveries → StateT σ (StateM World) α) (state : σ) :
    ((Emitter.ofConfig g.config).emitAll files {} >>= next) state world =
      next result state later := by
  have hbind : ∀ first : StateM World (Except Fault Unit × Deliveries),
      ((liftM first : StateT σ (StateM World) _) >>= next) state world =
        next (first world).1 state (first world).2 := fun _ => rfl
  unfold Runs at h
  rw [← Emitter.emitAll_lift, hbind, h]

theorem runFrom_of_generate_error {fault : Fault} (h : g.generate schema = .error fault) :
    g.runFrom onComplete schema state world = ((.error fault, state), world) := by
  unfold runFrom run
  rw [h]
  rfl

theorem runFrom_of_emitAll_error {project : Project} {fault : Fault} {deliveries : Deliveries}
    (h : g.generate schema = .ok project)
    (hemit : Runs ((Emitter.ofConfig g.config).emitAll project.files {}) world
      (.error fault, deliveries) later) :
    g.runFrom onComplete schema state world = ((.error fault, state), later) := by
  unfold runFrom run
  rw [h]
  exact emitAll_bind hemit _ state

/-- When all files have been emitted, the paths written are handed over. -/
theorem runFrom_of_emitAll {project : Project} {deliveries : Deliveries} {emitted : World}
    (h : g.generate schema = .ok project)
    (hemit : Runs ((Emitter.ofConfig g.config).emitAll project.files {}) world
      (.ok (), deliveries) emitted) :
    g.runFrom onComplete schema state world =
      ((.ok ⟨project, deliveries⟩, (handOver onComplete deliveries.written state emitted).1),
        (handOver onComplete deliveries.written state emitted).2) := by
  unfold runFrom run
  rw [h]
  exact emitAll_bind hemit _ state

/-- A run that ends well has emitted the files of a project and handed over the paths
written. -/
theorem emitted_of_ok {report : RunReport}
    (h : g.runFrom onComplete schema state world = ((.ok report, state'), later)) :
    g.generate schema = .ok report.project ∧ ∃ emitted,
      Runs ((Emitter.ofConfig g.config).emitAll report.project.files {}) world
        (.ok (), report.deliveries) emitted ∧
      (state', later) = handOver onComplete report.deliveries.written state emitted := by
  cases hgenerate : g.generate schema with
  | error fault =>
    rw [runFrom_of_generate_error hgenerate] at h
    cases h
  | ok project =>
    obtain ⟨⟨answer, deliveries⟩, emitted, hemit⟩ :=
      exists_runs ((Emitter.ofConfig g.config).emitAll project.files {}) world
    cases answer with
    | error fault =>
      rw [runFrom_of_emitAll_error hgenerate hemit] at h
      cases h
    | ok =>
      rw [runFrom_of_emitAll hgenerate hemit] at h
      cases h
      exact ⟨rfl, emitted, hemit, rfl⟩

/-- A run ends well if something is seen in its report. -/
theorem exists_runFrom_ok {α : Type} {seen : α} (view : RunReport → α)
    (h : (g.runFrom onComplete schema state world).1.map
      (fun answer => answer.toOption.map view) id = (some seen, state')) :
    ∃ report later, g.runFrom onComplete schema state world = ((.ok report, state'), later) ∧
      view report = seen := by
  obtain ⟨⟨⟨answer, after⟩, later⟩, hrun⟩ : ∃ outcome,
      g.runFrom onComplete schema state world = outcome := ⟨_, rfl⟩
  rw [hrun] at h
  obtain ⟨hview, hafter⟩ := Prod.mk.inj h
  obtain rfl : after = state' := hafter
  cases answer with
  | error => cases hview
  | ok report => exact ⟨report, later, hrun, Option.some.inj hview⟩

/-! ### Failing runs -/

/-- Directories that are new around a path, none of which holds a file. -/
structure AddsHolders (path : String) (world later : World) : Prop where
  /-- The working directory is the same. -/
  directory : later.directory = world.directory
  /-- The nodes are the same but for the new directories. -/
  nodes : ∀ place, later.tree.node? place = world.tree.node? place ∨
    world.tree.node? place = none ∧ later.tree.node? place = some .directory ∧
      (∃ holder ∈ holders path, later.locate holder = .ok place) ∧
        ∀ below content, later.tree.node? (place ++ below) ≠ some (.file content)

theorem addsHolders_of_emit_error {emitter : Emitter} {file : OutputFile} {fault : Fault}
    (hclosed : world.tree.IsClosed) (h : Runs (emitter.emit file) world (.error fault) later) :
    AddsHolders (emitter.pathOf file) world later := by
  cases Emitter.emits_of_runs h with
  | failed hgrows =>
    refine ⟨hgrows.directory, fun place => (hgrows.nodes place).imp_right ?_⟩
    rintro ⟨hnone, hnew, hholder⟩
    refine ⟨hnone, hnew, hholder, fun below content hfile => ?_⟩
    rcases hgrows.nodes (place ++ below) with hsame | ⟨-, hdirectory, -⟩
    · -- the file was there before, and so was what it lies below
      rw [hsame] at hfile
      have hthere := hclosed.isSome_of_below (by rw [hfile]; rfl)
      rw [hnone] at hthere
      cases hthere
    · rw [hfile] at hdirectory
      cases hdirectory

/-- **The outcome of a run.**  A run that ends well has emitted all files of its project
and handed over the paths written, once.  A run that fails hands over nothing.  It leaves
the world alone if it does not generate a project, and otherwise as the emission of the
files before the failing one leaves it, up to new directories around that file in which
there is no file. -/
theorem run_outcome (g : Generator) (schema : Schema)
    (onComplete : List String → StateT σ (StateM World) Unit) (state : σ) {world : World}
    (hclosed : world.tree.IsClosed) :
    (∀ report state' later,
      g.runFrom onComplete schema state world = ((.ok report, state'), later) →
      g.generate schema = .ok report.project ∧
        ∃ emitted, Runs ((Emitter.ofConfig g.config).emitAll report.project.files {}) world
          (.ok (), report.deliveries) emitted ∧
          (state', later) = handOver onComplete report.deliveries.written state emitted) ∧
    ∀ fault state' later,
      g.runFrom onComplete schema state world = ((.error fault, state'), later) →
      state' = state ∧ (g.generate schema = .error fault ∧ later = world ∨
        ∃ project before file behind deliveries between,
          g.generate schema = .ok project ∧ project.files = before ++ file :: behind ∧
          Runs ((Emitter.ofConfig g.config).emitAll before {}) world (.ok (), deliveries) between ∧
          Runs ((Emitter.ofConfig g.config).emit file) between (.error fault) later ∧
          AddsHolders ((Emitter.ofConfig g.config).pathOf file) between later) := by
  refine ⟨fun report state' later h => emitted_of_ok h, fun fault state' later h => ?_⟩
  cases hgenerate : g.generate schema with
  | error fault =>
    rw [runFrom_of_generate_error hgenerate] at h
    cases h
    exact ⟨rfl, .inl ⟨rfl, rfl⟩⟩
  | ok project =>
    obtain ⟨⟨answer, deliveries⟩, emitted, hemit⟩ :=
      exists_runs ((Emitter.ofConfig g.config).emitAll project.files {}) world
    cases answer with
    | ok =>
      rw [runFrom_of_emitAll hgenerate hemit] at h
      cases h
    | error fault =>
      rw [runFrom_of_emitAll_error hgenerate hemit] at h
      cases h
      obtain ⟨before, file, behind, between, hfiles, hbefore, hfile⟩ :=
        Emitter.exists_of_emitAll_error hemit
      have hadds := addsHolders_of_emit_error (Emitter.closed_of_emitAll hbefore hclosed) hfile
      exact ⟨rfl, .inr ⟨project, before, file, behind, _, between, rfl, hfiles, hbefore, hfile,
        hadds⟩⟩

/-- A schema of one model. -/
def shelf : Schema :=
  { models := [{ name := "Book", properties := [⟨"title", .scalar .string {}⟩] }] }

/-- Keeps a record of the paths that are handed over. -/
def record (paths : List String) : StateT (List (List String)) (StateM World) Unit :=
  modify (· ++ [paths])

/-- A world in which a file stands where resolver files would go. -/
def blocked : World :=
  { tree := { nodes := [(["out"], .directory), (["out", "resolvers"], .file "")] } }

/-- The resolver file of a book cannot be written, and nothing is handed over. -/
theorem run_blocked :
    blocked.tree.IsClosed ∧ ∃ fault later,
      runFrom { config := { outputDir := "out" } } record shelf [] blocked =
        ((.error fault, []), later) := by
  have hclosed : blocked.tree.IsClosed := by decide
  have hfails : (runFrom { config := { outputDir := "out" } } record shelf [] blocked).1.1.isOk =
      false := by decide +kernel
  obtain ⟨⟨⟨answer, state⟩, later⟩, hrun⟩ : ∃ outcome,
      runFrom { config := { outputDir := "out" } } record shelf [] blocked = outcome := ⟨_, rfl⟩
  rw [hrun] at hfails
  cases answer with
  | ok => cases hfails
  | error fault =>
    obtain ⟨rfl, -⟩ := (run_outcome _ shelf record [] hclosed).2 fault state later hrun
    exact ⟨hclosed, fault, later, hrun⟩

/-! ### Runs that are repeated -/

/-- Handing over paths leaves the files as they are. -/
def LeavesFiles (onComplete : List String → StateT σ (StateM World) Unit) : Prop :=
  ∀ paths state world, (handOver onComplete paths state world).2 = world

/-- **Runs that are repeated.**  A run after one that ended well ends well and leaves
every file and directory as it is.  It keeps all files and hands over no paths, or writes
all of them again, in the order of generation. -/
theorem run_twice {report : RunReport} (hhandOver : LeavesFiles onComplete)
    (h : g.runFrom onComplete schema state world = ((.ok report, state'), later)) (again : σ) :
    let paths := report.project.files.map (Emitter.ofConfig g.config).pathOf
    let deliveries : Deliveries := if g.config.overwrite then ⟨paths, []⟩ else ⟨[], paths⟩
    g.runFrom onComplete schema again later =
      ((.ok ⟨report.project, deliveries⟩,
        (handOver onComplete deliveries.written again later).1), later) := by
  intro paths deliveries
  obtain ⟨hgenerate, emitted, hemit, hafter⟩ := emitted_of_ok h
  have hlater : later = emitted := by
    rw [← hhandOver report.deliveries.written state emitted, ← hafter]
  subst hlater
  rw [runFrom_of_emitAll hgenerate (Emitter.runs_emitAll_again hemit), hhandOver]
  rfl

/-- The file of a book is kept by a second run, which hands over no paths. -/
theorem run_shelf_twice :
    LeavesFiles record ∧ ∃ report later,
      runFrom { config := { outputDir := "out", emitResolvers := false } } record shelf [] blocked =
        ((.ok report, [["out/Book.graphql"]]), later) ∧
      runFrom { config := { outputDir := "out", emitResolvers := false } } record shelf [] later =
        ((.ok ⟨report.project, ⟨[], ["out/Book.graphql"]⟩⟩, [[]]), later) := by
  have hleaves : LeavesFiles record := fun _ _ _ => rfl
  have hends : ((runFrom { config := { outputDir := "out", emitResolvers := false } } record shelf
      [] blocked).1.map (fun answer => answer.toOption.map fun report =>
        report.project.files.map (Emitter.mk "out" false).pathOf) id) =
      (some ["out/Book.graphql"], [["out/Book.graphql"]]) := by decide +kernel
  obtain ⟨report, later, hrun, hpaths⟩ := exists_runFrom_ok _ hends
  have htwice := run_twice hleaves hrun []
  exact ⟨hleaves, report, later, hrun, htwice.trans (by rw [← hpaths]; rfl)⟩

/-- Notes the paths that are handed over in a file. -/
def note (paths : List String) : StateT Unit (StateM World) Unit := do
  let _ ← (liftM (Workspace.write "written.txt" ("\n".intercalate paths) : StateM World _) :
    StateT Unit (StateM World) _)

/-- A second run that hands over no paths replaces the note of the first. -/
theorem run_shelf_noted :
    let config : Config := { outputDir := "out", emitResolvers := false }
    let first := runFrom { config } note shelf () blocked
    let second := runFrom { config } note shelf () first.2
    first.1.1.isOk ∧ second.1.1.isOk ∧
      (first.2.read "written.txt").toOption = some "out/Book.graphql" ∧
      (second.2.read "written.txt").toOption = some "" := by
  decide +kernel

end Generator
end Generate
end EntitySdl
