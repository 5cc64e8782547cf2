import EntitySdl.Generate.Emission
import EntitySdl.Proofs.Worlds

/-! # Emitted files

Emitting a file does one of three things.  A file that is kept leaves the world alone.
A file that is written is put where its path leads, in a world that has grown by the
directories around it.  And where that fails, some of these directories are all that is
new.  An emission of files is a chain of such steps, and the first that fails ends it.
-/
namespace EntitySdl
namespace Generate

open World

/-- The paths of the directories around a path, innermost first. -/
def holders (path : String) : List String := ((Path.parent? path).map Path.ancestors).getD []

/-- The directory that holds a path is there, if the path names one. -/
def HasHolder (world : World) (path : String) : Prop :=
  ∀ holder ∈ (holders path).head?, world.HasDirectory holder

namespace Emitter

variable {emitter : Emitter} {file : OutputFile} {files : List OutputFile}
  {world between later : World} {path content : String} {place : Place}

/-- What emitting a file answers, and the world it leaves. -/
inductive Emits (emitter : Emitter) (file : OutputFile) (world : World) :
    Except Fault Delivery → World → Prop where
  /-- Something is there and must be kept. -/
  | kept (hoverwrite : emitter.overwrite = false) (hpath : world.Has (emitter.pathOf file)) :
      Emits emitter file world (.ok (.kept (emitter.pathOf file))) world
  /-- The file is written. -/
  | written {between : World} {place : Place}
      (hgrows : Grows (holders (emitter.pathOf file)) world between)
      (hholder : HasHolder between (emitter.pathOf file))
      (htarget : between.target (emitter.pathOf file) = .ok place) :
      Emits emitter file world (.ok (.written (emitter.pathOf file)))
        (between.put place (.file file.content))
  /-- A directory cannot be created, or the file cannot be written. -/
  | failed {fault : Fault} {later : World}
      (hgrows : Grows (holders (emitter.pathOf file)) world later) :
      Emits emitter file world (.error fault) later

theorem grows_of_createParent {answer : Except Fault Unit}
    (h : Runs (createParent path) world answer later) :
    Grows (holders path) world later ∧ (answer = .ok () → HasHolder later path) := by
  unfold createParent at h
  unfold HasHolder holders
  cases hparent : Path.parent? path with
  | none =>
    rw [hparent] at h
    obtain ⟨rfl, rfl⟩ := runs_pure_iff.mp h
    exact ⟨.refl _ _, by simp⟩
  | some parent =>
    rw [hparent] at h
    obtain ⟨made, middle, hmade, hanswer⟩ := runs_bind_iff.mp h
    obtain ⟨rfl, rfl⟩ := runs_pure_iff.mp hanswer
    obtain ⟨hgrows, hdirectory⟩ := grows_of_createInner hmade
    exact ⟨hgrows, fun h => hdirectory (mapError_eq_ok_iff.mp h)⟩

/-- **One file.**  Emitting a file does one of the three things. -/
theorem emits_of_runs {answer : Except Fault Delivery}
    (h : Runs (emitter.emit file) world answer later) : Emits emitter file world answer later := by
  have hreplace : Runs (replace (emitter.pathOf file) file.content) world answer later →
      Emits emitter file world answer later := by
    intro h
    obtain ⟨created, between, hcreated, hrest⟩ := runs_bind_iff.mp h
    obtain ⟨hgrows, hholder⟩ := grows_of_createParent hcreated
    split at hrest
    · obtain ⟨rfl, rfl⟩ := runs_pure_iff.mp hrest
      exact .failed hgrows
    · obtain ⟨put, _, hput, hrest⟩ := runs_bind_iff.mp hrest
      split at hrest <;> obtain ⟨rfl, rfl⟩ := runs_pure_iff.mp hrest
      · obtain rfl := eq_of_write_error hput
        exact .failed hgrows
      · obtain ⟨place, htarget, rfl⟩ := exists_target_of_write hput
        exact .written hgrows (hholder rfl) htarget
  unfold emit at h
  split at h
  · exact hreplace h
  · rename_i hoverwrite
    obtain ⟨found, _, hfound, hrest⟩ := runs_bind_iff.mp h
    obtain ⟨hfound, rfl⟩ := runs_pathExists_iff.mp hfound
    split at hrest
    · rename_i hyes
      obtain ⟨rfl, rfl⟩ := runs_pure_iff.mp hrest
      exact .kept (by simpa using hoverwrite) (hfound.mp hyes)
    · exact hreplace hrest

theorem ne_nil_of_target (h : world.target path = .ok place) : place ≠ [] :=
  ne_nil_of_node? (target_eq_ok_iff.mp h).2.2

/-- A file goes where a file is or nothing is. -/
theorem extends_of_target (h : world.target path = .ok place) (content : String) :
    world.Extends (world.put place (.file content)) := by
  obtain ⟨-, -, hnode⟩ := target_eq_ok_iff.mp h
  refine extends_put (ne_nil_of_target h) ?_
  unfold Tree.kind?
  cases hthere : world.tree.node? place with
  | none => exact .inl rfl
  | some node =>
    cases node with
    | directory => exact absurd hthere hnode
    | file => exact .inr rfl

theorem Emits.toExtends {answer : Except Fault Delivery}
    (h : Emits emitter file world answer later) :
    world.Extends later := by
  cases h with
  | kept => exact .refl _
  | written hgrows _ htarget => exact hgrows.toExtends.trans (extends_of_target htarget _)
  | failed hgrows => exact hgrows.toExtends

theorem Emits.closed {answer : Except Fault Delivery} (h : Emits emitter file world answer later)
    (hclosed : world.tree.IsClosed) : later.tree.IsClosed := by
  cases h with
  | kept => exact hclosed
  | written hgrows _ htarget =>
    have hclosed := hgrows.closed hclosed
    exact hclosed.put (ne_nil_of_target htarget) (extends_of_target htarget _).tree
      (outer_of_locate hclosed (target_eq_ok_iff.mp htarget).1)
  | failed hgrows => exact hgrows.closed hclosed

/-- A file can be written again, where one is and the directories around it are. -/
structure IsRewritable (world : World) (path : String) (place : Place) : Prop where
  /-- The directory that holds it is there. -/
  holder : HasHolder world path
  /-- A file is there. -/
  file : world.HasFile path place

theorem IsRewritable.mono (h : IsRewritable world path place) (hextends : world.Extends later) :
    IsRewritable later path place :=
  ⟨fun holder hmem => hextends.hasDirectory (h.holder holder hmem), hextends.hasFile h.file⟩

theorem isRewritable_put (hholder : HasHolder world path)
    (htarget : world.target path = .ok place) :
    IsRewritable (world.put place (.file content)) path place := by
  have hextends := extends_of_target htarget content
  obtain ⟨hlocate, hasks, -⟩ := target_eq_ok_iff.mp htarget
  refine ⟨fun holder hmem => hextends.hasDirectory (hholder holder hmem),
    hextends.locate hlocate, ?_, hasks⟩
  exact (Tree.kind?_put (ne_nil_of_target htarget) place).trans (if_pos rfl)

/-- A file that can be written again is a place for a file to be written. -/
theorem IsRewritable.target (h : IsRewritable world path place) :
    world.target path = .ok place := by
  refine target_eq_ok_iff.mpr ⟨h.file.1, h.file.2.2, fun hdirectory => ?_⟩
  have hkind := h.file.2.1
  rw [Tree.kind?_eq_directory_iff.mpr hdirectory] at hkind
  cases hkind

/-- What has been emitted is there. -/
theorem Emits.has {delivery : Delivery} (h : Emits emitter file world (.ok delivery) later) :
    later.Has (emitter.pathOf file) := by
  cases h with
  | kept _ hpath => exact hpath
  | written _ hholder htarget =>
    exact has_iff.mpr (.inr ⟨_, (isRewritable_put hholder htarget).file⟩)

/-! ### Emitting again -/

theorem runs_createParent_again (h : HasHolder world path) :
    Runs (createParent path) world (.ok ()) world := by
  unfold HasHolder holders at h
  unfold createParent
  cases hparent : Path.parent? path with
  | none => exact runs_pure_iff.mpr ⟨rfl, rfl⟩
  | some parent =>
    rw [hparent] at h
    have hcreated : Runs (Workspace.createDirectories parent) world (.ok ()) world := by
      unfold Workspace.createDirectories
      cases hancestors : Path.ancestors parent with
      | nil => exact runs_pure_iff.mpr ⟨rfl, rfl⟩
      | cons first outer => exact runs_createInner_again (h first (by simp [hancestors]))
    exact runs_bind_iff.mpr ⟨_, _, hcreated, runs_pure_iff.mpr ⟨rfl, rfl⟩⟩

/-- A file that may not be replaced is kept. -/
theorem runs_emit_kept (hoverwrite : emitter.overwrite = false)
    (h : world.Has (emitter.pathOf file)) :
    Runs (emitter.emit file) world (.ok (.kept (emitter.pathOf file))) world := by
  unfold emit
  rw [hoverwrite]
  have hfound : Runs (Workspace.pathExists (emitter.pathOf file)) world true world :=
    runs_pathExists_iff.mpr ⟨iff_of_true rfl h, rfl⟩
  exact runs_bind_iff.mpr ⟨_, _, hfound, runs_pure_iff.mpr ⟨rfl, rfl⟩⟩

/-- A file that may be replaced is written where it was. -/
theorem runs_emit_written (hoverwrite : emitter.overwrite = true)
    (h : IsRewritable world (emitter.pathOf file) place) :
    Runs (emitter.emit file) world (.ok (.written (emitter.pathOf file)))
      (world.put place (.file file.content)) := by
  unfold emit
  rw [hoverwrite]
  have hwrite : Runs (Workspace.write (emitter.pathOf file) file.content) world (.ok ())
      (world.put place (.file file.content)) :=
    runs_write_iff.mpr (.inl ⟨place, h.target, rfl, rfl⟩)
  refine runs_bind_iff.mpr ⟨_, _, runs_createParent_again h.holder, ?_⟩
  exact runs_bind_iff.mpr ⟨_, _, hwrite, runs_pure_iff.mpr ⟨rfl, rfl⟩⟩

/-! ### Emitting files -/

variable {deliveries all : Deliveries}

/-- The first file is emitted without success, or the others are emitted after it. -/
theorem runs_emitAll_cons_iff {answer : Except Fault Unit × Deliveries} :
    Runs (emitter.emitAll (file :: files) deliveries) world answer later ↔
      (∃ fault, Runs (emitter.emit file) world (.error fault) later ∧
        answer = (.error fault, deliveries)) ∨
      ∃ delivery between, Runs (emitter.emit file) world (.ok delivery) between ∧
        Runs (emitter.emitAll files (deliveries.add delivery)) between answer later := by
  rw [emitAll, runs_bind_iff]
  constructor
  · rintro ⟨_ | delivery, between, hfile, hrest⟩
    · obtain ⟨rfl, rfl⟩ := runs_pure_iff.mp hrest
      exact .inl ⟨_, hfile, rfl⟩
    · exact .inr ⟨delivery, between, hfile, hrest⟩
  · rintro (⟨fault, hfile, rfl⟩ | ⟨delivery, between, hfile, hrest⟩)
    · exact ⟨_, _, hfile, runs_pure_iff.mpr ⟨rfl, rfl⟩⟩
    · exact ⟨_, _, hfile, hrest⟩

theorem closed_of_emitAll {answer : Except Fault Unit × Deliveries}
    (h : Runs (emitter.emitAll files deliveries) world answer later)
    (hclosed : world.tree.IsClosed) : later.tree.IsClosed := by
  induction files generalizing world deliveries with
  | nil =>
    obtain ⟨-, rfl⟩ := runs_pure_iff.mp h
    exact hclosed
  | cons file files ih =>
    rcases runs_emitAll_cons_iff.mp h with ⟨_, hfile, -⟩ | ⟨_, _, hfile, hrest⟩
    · exact (emits_of_runs hfile).closed hclosed
    · exact ih hrest ((emits_of_runs hfile).closed hclosed)

/-- An emission that fails does so at one of the files, after those before it have been
emitted. -/
theorem exists_of_emitAll_error {fault : Fault}
    (h : Runs (emitter.emitAll files deliveries) world (.error fault, all) later) :
    ∃ before file behind between, files = before ++ file :: behind ∧
      Runs (emitter.emitAll before deliveries) world (.ok (), all) between ∧
      Runs (emitter.emit file) between (.error fault) later := by
  induction files generalizing world deliveries with
  | nil =>
    obtain ⟨hanswer, -⟩ := runs_pure_iff.mp h
    cases hanswer
  | cons file files ih =>
    rcases runs_emitAll_cons_iff.mp h with ⟨_, hfile, hanswer⟩ | ⟨delivery, next, hfile, hrest⟩
    · cases hanswer
      exact ⟨[], file, files, world, rfl, runs_pure_iff.mpr ⟨rfl, rfl⟩, hfile⟩
    · obtain ⟨before, failing, behind, between, rfl, hbefore, hfailing⟩ := ih hrest
      exact ⟨file :: before, failing, behind, between, rfl,
        runs_emitAll_cons_iff.mpr (.inr ⟨delivery, next, hfile, hbefore⟩), hfailing⟩

/-- All files that have been emitted are there. -/
theorem has_of_emitAll (h : Runs (emitter.emitAll files deliveries) world (.ok (), all) later) :
    world.Extends later ∧ ∀ file ∈ files, later.Has (emitter.pathOf file) := by
  induction files generalizing world deliveries with
  | nil =>
    obtain ⟨-, rfl⟩ := runs_pure_iff.mp h
    exact ⟨.refl _, by simp⟩
  | cons file files ih =>
    rcases runs_emitAll_cons_iff.mp h with ⟨_, -, hanswer⟩ | ⟨delivery, between, hfile, hrest⟩
    · cases hanswer
    · have hemits := emits_of_runs hfile
      obtain ⟨hextends, hall⟩ := ih hrest
      exact ⟨hemits.toExtends.trans hextends,
        List.forall_mem_cons.mpr ⟨hextends.has hemits.has, hall⟩⟩

/-- Every file of an emission that ends well has been written or kept. -/
theorem count_of_emitAll (h : Runs (emitter.emitAll files deliveries) world (.ok (), all) later) :
    all.written.length + all.kept.length =
      deliveries.written.length + deliveries.kept.length + files.length := by
  induction files generalizing world deliveries with
  | nil =>
    obtain ⟨hanswer, -⟩ := runs_pure_iff.mp h
    cases hanswer
    rfl
  | cons file files ih =>
    rcases runs_emitAll_cons_iff.mp h with ⟨_, -, hanswer⟩ | ⟨delivery, _, -, hrest⟩
    · cases hanswer
    · have hadd : (deliveries.add delivery).written.length + (deliveries.add delivery).kept.length =
          deliveries.written.length + deliveries.kept.length + 1 := by
        cases delivery with
        | written => simp only [Deliveries.add, List.length_append, List.length_singleton]; omega
        | kept => simp only [Deliveries.add, List.length_append, List.length_singleton]; omega
      rw [ih hrest, hadd, List.length_cons]
      omega

/-- What writing files puts into a tree: each of them can be written there again, and the
last that is put at a place is what stands there. -/
structure Rewrites (emitter : Emitter) (files : List OutputFile) (world : World)
    (puts : List (Place × Node)) : Prop where
  /-- Every file is put where its path leads. -/
  files : List.Forall₂ (fun file put => IsRewritable world (emitter.pathOf file) put.1 ∧
    put.2 = .file file.content) files puts
  /-- The last that is put counts. -/
  last : ∀ place node, puts.reverse.lookup place = some node →
    world.tree.node? place = some node

/-- Nodes stay what they are where no file is put. -/
def KeepsBut (puts : List (Place × Node)) (world later : World) : Prop :=
  ∀ place node, place ∉ puts.map Prod.fst → world.tree.node? place = some node →
    later.tree.node? place = some node

theorem keepsBut_put {holding : List String} (hgrows : Grows holding world between)
    (hplace : place ≠ []) (put : Node) : KeepsBut [(place, put)] world (between.put place put) := by
  intro other node hother hnode
  have hsame : between.tree.node? other = some node := by
    rcases hgrows.nodes other with hsame | ⟨hnone, -, -⟩
    · rwa [hsame]
    · rw [hnone] at hnode
      cases hnode
  refine (Tree.node?_put hplace other).trans ?_
  rwa [if_neg (by simpa using hother)]

/-- **What has been written.**  Where files may be replaced, all of them have been put
where they can be written again. -/
theorem exists_rewrites_of_emitAll (hoverwrite : emitter.overwrite = true)
    (h : Runs (emitter.emitAll files deliveries) world (.ok (), all) later) :
    ∃ puts, Rewrites emitter files later puts ∧ KeepsBut puts world later := by
  induction files generalizing world deliveries with
  | nil =>
    obtain ⟨-, rfl⟩ := runs_pure_iff.mp h
    exact ⟨[], ⟨.nil, nofun⟩, fun _ _ _ hnode => hnode⟩
  | cons file files ih =>
    rcases runs_emitAll_cons_iff.mp h with ⟨_, -, hanswer⟩ | ⟨delivery, next, hfile, hrest⟩
    · cases hanswer
    · obtain ⟨puts, hputs, hkeeps⟩ := ih hrest
      have hextends := (has_of_emitAll hrest).1
      cases emits_of_runs hfile with
      | kept hkept =>
        rw [hoverwrite] at hkept
        cases hkept
      | @written between place hgrows hholder htarget =>
        have hplace := ne_nil_of_target htarget
        have hfirst := keepsBut_put hgrows hplace (.file file.content)
        refine ⟨(place, .file file.content) :: puts, ⟨.cons ⟨?_, rfl⟩ hputs.files, ?_⟩, ?_⟩
        · exact (isRewritable_put hholder htarget).mono hextends
        · -- a place where a file is put again holds the last one, any other place the first
          intro other node hlast
          rw [List.reverse_cons, List.lookup_append] at hlast
          cases hlater : puts.reverse.lookup other with
          | some last =>
            rw [hlater] at hlast
            cases hlast
            exact hputs.last other _ hlater
          | none =>
            rw [hlater, Option.none_or, Tree.lookup_node_cons] at hlast
            split at hlast
            · rename_i hother
              subst hother
              cases hlast
              refine hkeeps other _ ?_ ((Tree.node?_put hplace other).trans (if_pos rfl))
              rwa [← List.mem_reverse, ← List.map_reverse, ← Tree.isSome_lookup_iff,
                Option.not_isSome_iff_eq_none]
            · cases hlast
        · intro other node hother hnode
          rw [List.map_cons, List.mem_cons, not_or] at hother
          exact hkeeps other node hother.2 (hfirst other node (by simpa using hother.1) hnode)

theorem runs_emitAll_kept (hoverwrite : emitter.overwrite = false)
    (h : ∀ file ∈ files, world.Has (emitter.pathOf file)) (deliveries : Deliveries) :
    Runs (emitter.emitAll files deliveries) world
      (.ok (), { deliveries with kept := deliveries.kept ++ files.map emitter.pathOf }) world := by
  induction files generalizing deliveries with
  | nil => exact runs_pure_iff.mpr ⟨by simp, rfl⟩
  | cons file files ih =>
    rw [List.forall_mem_cons] at h
    refine runs_emitAll_cons_iff.mpr (.inr ⟨_, _, runs_emit_kept hoverwrite h.1, ?_⟩)
    have hall := ih h.2 (deliveries.add (.kept (emitter.pathOf file)))
    simpa [Deliveries.add] using hall

theorem runs_emitAll_written {puts : List (Place × Node)} (hoverwrite : emitter.overwrite = true)
    (h : List.Forall₂ (fun file put => IsRewritable world (emitter.pathOf file) put.1 ∧
      put.2 = .file file.content) files puts) (deliveries : Deliveries) :
    Runs (emitter.emitAll files deliveries) world
      (.ok (), { deliveries with written := deliveries.written ++ files.map emitter.pathOf })
      { world with tree := ⟨Tree.putAll puts world.tree.nodes⟩ } := by
  induction files generalizing puts world deliveries with
  | nil =>
    cases h
    exact runs_pure_iff.mpr ⟨by simp, rfl⟩
  | cons file files ih =>
    obtain _ | @⟨_, ⟨place, put⟩, _, puts, ⟨hfile, rfl⟩, hrest⟩ := h
    refine runs_emitAll_cons_iff.mpr (.inr ⟨_, _, runs_emit_written hoverwrite hfile, ?_⟩)
    have hextends := extends_of_target hfile.target file.content
    have hall := ih (hrest.imp fun _ _ h => ⟨h.1.mono hextends, h.2⟩)
      (deliveries.add (.written (emitter.pathOf file)))
    rw [Deliveries.add, List.append_assoc] at hall
    exact hall

/-- **Emitting again.**  Once files have been emitted, emitting them again changes
nothing: all of them are kept, or all are written as they are. -/
theorem runs_emitAll_again
    (h : Runs (emitter.emitAll files deliveries) world (.ok (), all) later) :
    Runs (emitter.emitAll files {}) later
      (.ok (), if emitter.overwrite then ⟨files.map emitter.pathOf, []⟩
        else ⟨[], files.map emitter.pathOf⟩) later := by
  cases hoverwrite : emitter.overwrite with
  | false => simpa using runs_emitAll_kept hoverwrite (has_of_emitAll h).2 {}
  | true =>
    obtain ⟨puts, hputs, -⟩ := exists_rewrites_of_emitAll hoverwrite h
    have hwritten := runs_emitAll_written hoverwrite hputs.files {}
    have hnodes : Tree.putAll puts later.tree.nodes = later.tree.nodes := by
      refine Tree.putAll_self fun place node hlast => ?_
      have hplaces := forall_of_forall₂ hputs.files (p := fun put => put.1 ≠ [])
        fun _ _ _ h => ne_nil_of_target h.1.target
      have hplace := hplaces _ (List.mem_reverse.mp (Tree.mem_of_lookup hlast))
      have hnode := hputs.last place node hlast
      rwa [Tree.node?, if_neg hplace] at hnode
    rw [hnodes] at hwritten
    simpa using hwritten

end Emitter
end Generate
end EntitySdl
