import EntitySdl.Proofs.Deliveries
import EntitySdl.Proofs.Paths
import Mathlib.Data.List.Nodup

/-! # What an emission creates

What is there after an emission and was not there before is a file that has been written,
or a directory around one.  Such a directory has the name of a piece of the path that it
was created for: the working directory and those around it must have been there, or no
relative path would lead anywhere.

So a file that has been kept, and whose name is its own among the files of the emission,
was there before, unless a directory on the way to another file has that name.
-/
namespace EntitySdl

namespace World

variable {world later : World} {path name : String} {place : Place}

/-- A name at the end of a path is that of the place which the path leads to. -/
theorem getLast?_of_locate (hends : Path.EndsIn path name) (hname : Tree.IsName name)
    (h : world.locate path = .ok place) : place.getLast? = some name := by
  obtain ⟨outer, hpieces⟩ := hends.pieces hname
  obtain ⟨-, hfollow⟩ := locate_eq_ok_iff.mp h
  rw [hpieces, Tree.follow_append] at hfollow
  obtain ⟨spot, -, hlast⟩ := bind_eq_ok_iff.mp hfollow
  rw [Tree.follow] at hlast
  split at hlast
  · cases hlast
    rw [Tree.step, if_neg hname.2.1, if_neg hname.2.2.1, List.getLast?_concat]
  · cases hlast
  · cases hlast

/-- Two paths that never go up, and start at the same directory, lead to one place only by
the same pieces. -/
theorem pieces_eq_of_locate {other : String} (hdots : ".." ∉ Tree.pieces path)
    (hdots' : ".." ∉ Tree.pieces other) (hstart : Path.isAbsolute path = Path.isAbsolute other)
    (h : world.locate path = .ok place) (h' : world.locate other = .ok place) :
    (Tree.pieces path).filter (· != ".") = (Tree.pieces other).filter (· != ".") := by
  have hplace := Tree.eq_of_follow hdots (locate_eq_ok_iff.mp h).2
  rw [Tree.eq_of_follow hdots' (locate_eq_ok_iff.mp h').2, hstart] at hplace
  exact (List.append_cancel_left hplace).symm

/-! ### The working directory -/

/-- No path leads anywhere that begins at a working directory which is not there. -/
theorem locate_ne_ok (hmissing : world.tree.node? world.directory ≠ some .directory)
    (hrelative : Path.isAbsolute path = false) : world.locate path ≠ .ok place := by
  intro h
  obtain ⟨hpath, hfollow⟩ := locate_eq_ok_iff.mp h
  obtain ⟨piece, rest, hpieces⟩ :=
    List.exists_cons_of_ne_nil (Tree.pieces_ne_nil hpath hrelative)
  rw [hrelative, hpieces, if_neg Bool.false_ne_true, Tree.follow] at hfollow
  split at hfollow
  · rename_i hdirectory
    exact hmissing hdirectory
  · cases hfollow
  · cases hfollow

section Creating

open Workspace

variable {made answer : Except SystemFault Unit} {paths : List String}

theorem eq_of_settle (h : Runs (createInner.settle path made) world answer later) :
    later = world := by
  cases made with
  | ok => exact (runs_pure_iff.mp h).2
  | error why =>
    obtain ⟨_, _, hfound, hanswer⟩ := runs_bind_iff.mp h
    obtain ⟨-, rfl⟩ := runs_isDirectory_iff.mp hfound
    exact (runs_pure_iff.mp hanswer).2

theorem eq_of_makeDirectory (hpath : ∀ place, world.locate path ≠ .ok place)
    (h : Runs (makeDirectory path) world made later) : later = world := by
  rcases runs_makeDirectory_iff.mp h with ⟨place, hvacancy, -, -⟩ | ⟨_, -, -, hlater⟩
  · exact absurd (vacancy_eq_ok_iff.mp hvacancy).1 (hpath place)
  · exact hlater

/-- No directories are created on paths that lead nowhere. -/
theorem eq_of_createInner (hpaths : ∀ path ∈ paths, ∀ place, world.locate path ≠ .ok place)
    (h : Runs (createInner paths) world answer later) : later = world := by
  induction paths generalizing answer later with
  | nil => exact (runs_pure_iff.mp h).2
  | cons path outer ih =>
    obtain ⟨hpath, houter⟩ := List.forall_mem_cons.mp hpaths
    rw [createInner] at h
    obtain ⟨made, middle, hmade, hrest⟩ := runs_bind_iff.mp h
    obtain rfl := eq_of_makeDirectory hpath hmade
    split at hrest
    · obtain ⟨outcome, around, hinner, hagain⟩ := runs_bind_iff.mp hrest
      obtain rfl := ih houter hinner
      split at hagain
      · exact (runs_pure_iff.mp hagain).2
      · obtain ⟨_, _, hagain, hsettle⟩ := runs_bind_iff.mp hagain
        obtain rfl := eq_of_makeDirectory hpath hagain
        exact eq_of_settle hsettle
    · exact eq_of_settle hrest

end Creating

end World

namespace Generate

/-- A path begins with those of the directories around it. -/
theorem begins_holder {path holder : String} (h : holder ∈ holders path) :
    Path.Begins path.toList holder.toList ∧ holder.isEmpty = false := by
  unfold holders at h
  cases hparent : Path.parent? path with
  | none =>
    rw [hparent] at h
    cases h
  | some parent =>
    rw [hparent] at h
    obtain ⟨hbegins, hne⟩ := Path.begins_ancestors h
    exact ⟨(Path.begins_parent hparent).trans hbegins, hne⟩

theorem pieces_holder {path holder : String} (h : holder ∈ holders path) :
    Tree.pieces holder <+: Tree.pieces path := by
  simpa only [String.ofList_toList] using (begins_holder h).1.pieces

/-- The directories around a path are found from where the path starts. -/
theorem isAbsolute_holder {path holder : String} (h : holder ∈ holders path) :
    Path.isAbsolute holder = Path.isAbsolute path := by
  obtain ⟨hbegins, hne⟩ := begins_holder h
  rw [Path.isAbsolute, Path.isAbsolute, hbegins.head]
  rintro hnil
  rw [String.toList_eq_nil_iff.mp hnil] at hne
  cases hne

namespace Emitter

open World

variable {emitter : Emitter} {file : OutputFile} {marked : List (OutputFile × Bool)}
  {world between later : World} {place : Place} {delivery : Delivery} {path name : String}

theorem eq_of_createParent {answer : Except Fault Unit}
    (hpaths : ∀ holder ∈ holders path, ∀ place, world.locate holder ≠ .ok place)
    (h : Runs (createParent path) world answer later) : later = world := by
  unfold createParent at h
  unfold holders at hpaths
  cases hparent : Path.parent? path with
  | none =>
    rw [hparent] at h
    exact (runs_pure_iff.mp h).2
  | some parent =>
    rw [hparent] at h hpaths
    obtain ⟨_, _, hmade, hanswer⟩ := runs_bind_iff.mp h
    obtain ⟨-, rfl⟩ := runs_pure_iff.mp hanswer
    exact eq_of_createInner hpaths hmade

/-- A file that is written goes where its path leads once the directories around it are
there. -/
theorem exists_createParent (h : Runs (emitter.emit file) world (.ok (.written path)) later) :
    ∃ between place, Runs (createParent (emitter.pathOf file)) world (.ok ()) between ∧
      between.target (emitter.pathOf file) = .ok place := by
  have hreplace : Runs (replace (emitter.pathOf file) file.content) world
      (.ok (.written path)) later → ∃ between place,
        Runs (createParent (emitter.pathOf file)) world (.ok ()) between ∧
          between.target (emitter.pathOf file) = .ok place := by
    intro h
    obtain ⟨created, between, hcreated, hrest⟩ := runs_bind_iff.mp h
    split at hrest
    · cases (runs_pure_iff.mp hrest).1
    · obtain ⟨put, _, hput, hrest⟩ := runs_bind_iff.mp hrest
      split at hrest
      · cases (runs_pure_iff.mp hrest).1
      · obtain ⟨place, htarget, -⟩ := exists_target_of_write hput
        exact ⟨between, place, hcreated, htarget⟩
  unfold emit at h
  split at h
  · exact hreplace h
  · obtain ⟨found, _, hfound, hrest⟩ := runs_bind_iff.mp h
    obtain ⟨-, rfl⟩ := runs_pathExists_iff.mp hfound
    split at hrest
    · cases (runs_pure_iff.mp hrest).1
    · exact hreplace hrest

/-- A relative path is dealt with in a working directory that is there. -/
theorem directory_of_emit (h : Runs (emitter.emit file) world (.ok delivery) later)
    (hrelative : Path.isAbsolute (emitter.pathOf file) = false) :
    world.tree.node? world.directory = some .directory := by
  by_contra hmissing
  cases emits_of_runs h with
  | kept _ hpath =>
    obtain ⟨⟨spot, node⟩, hfound⟩ := hpath
    exact locate_ne_ok hmissing hrelative (find_eq_ok_iff.mp hfound).1
  | written =>
    obtain ⟨between, spot, hcreated, htarget⟩ := exists_createParent h
    obtain rfl := eq_of_createParent (fun holder hholder _ =>
      locate_ne_ok hmissing ((isAbsolute_holder hholder).trans hrelative)) hcreated
    exact locate_ne_ok hmissing hrelative (target_eq_ok_iff.mp htarget).1

/-! ### New files and directories -/

/-- A directory on the way to a file stands at a place, with the name of a piece. -/
def HoldsAt (emitter : Emitter) (world : World) (place : Place) (file : OutputFile) : Prop :=
  ∃ holder ∈ holders (emitter.pathOf file), world.locate holder = .ok place ∧
    ∃ name ∈ Tree.pieces holder, place.getLast? = some name

theorem HoldsAt.mono (h : emitter.HoldsAt world place file) (hextends : world.Extends later) :
    emitter.HoldsAt later place file := by
  obtain ⟨holder, hholder, hlocate, hname⟩ := h
  exact ⟨holder, hholder, hextends.locate hlocate, hname⟩

/-- What one file creates. -/
theorem new_of_emit (hclosed : world.tree.IsClosed)
    (h : Runs (emitter.emit file) world (.ok delivery) later)
    (hnone : world.tree.node? place = none) (hthere : (later.tree.node? place).isSome) :
    delivery.isWritten = true ∧
      (later.locate (emitter.pathOf file) = .ok place ∨ emitter.HoldsAt later place file) := by
  cases emits_of_runs h with
  | kept =>
    rw [hnone] at hthere
    cases hthere
  | @written grown spot hgrows hholder htarget =>
    have hspot : IsRewritable (grown.put spot (.file file.content)) (emitter.pathOf file) spot :=
      isRewritable_put hholder htarget
    refine ⟨rfl, ?_⟩
    by_cases hplace : place = spot
    · subst hplace
      exact .inl hspot.file.1
    · have hsame : (grown.put spot (.file file.content)).tree.node? place =
          grown.tree.node? place :=
        (Tree.node?_put (ne_nil_of_target htarget) place).trans (if_neg hplace)
      rw [hsame] at hthere
      rcases hgrows.nodes place with hold | ⟨-, -, holder, hmem, hlocate⟩
      · rw [hold, hnone] at hthere
        cases hthere
      · refine .inr (HoldsAt.mono ⟨holder, hmem, hlocate, ?_⟩ (extends_of_target htarget _))
        obtain ⟨-, hfollow⟩ := locate_eq_ok_iff.mp hlocate
        obtain ⟨outer, names, rfl, houter, hnames⟩ := Tree.ledBy_of_follow hfollow
        rcases List.eq_nil_or_concat names with rfl | ⟨more, name, rfl⟩
        · -- the way to where the path starts is there already
          exfalso
          rw [List.append_nil] at hnone
          obtain ⟨below, hbelow⟩ := houter
          split at hbelow
          · rw [(List.append_eq_nil_iff.mp hbelow).1] at hnone
            cases hnone
          · rename_i hrelative
            rw [isAbsolute_holder hmem, Bool.not_eq_true] at hrelative
            have hdirectory := directory_of_emit h hrelative
            rw [← hgrows.directory, ← hbelow] at hdirectory
            have hfound := hclosed.isSome_of_below (by rw [hdirectory]; rfl)
            rw [hnone] at hfound
            cases hfound
        · refine ⟨name, hnames (by simp), ?_⟩
          rw [List.concat_eq_append, ← List.append_assoc, List.getLast?_concat]

/-- **What an emission creates.**  It is a file that has been written, or a directory on
the way to one. -/
theorem Delivers.new (h : Delivers emitter [] marked world later) (hclosed : world.tree.IsClosed)
    (hnone : world.tree.node? place = none) (hthere : (later.tree.node? place).isSome) :
    ∃ file, (file, true) ∈ marked ∧
      (later.locate (emitter.pathOf file) = .ok place ∨ emitter.HoldsAt later place file) := by
  induction h with
  | stop hgrows =>
    rcases hgrows.nodes place with hsame | ⟨-, -, _, hpath, -⟩
    · rw [hsame, hnone] at hthere
      cases hthere
    · cases hpath
  | @step file _ _ _ between _ hemit hrest ih =>
    cases hnode : between.tree.node? place with
    | none =>
      obtain ⟨other, hother, hnew⟩ := ih ((emits_of_runs hemit).closed hclosed) hnode hthere
      exact ⟨other, List.mem_cons_of_mem _ hother, hnew⟩
    | some =>
      obtain ⟨hwritten, hnew⟩ := new_of_emit hclosed hemit hnone (by rw [hnode]; rfl)
      refine ⟨file, by rw [hwritten]; exact List.mem_cons_self, ?_⟩
      exact hnew.imp hrest.toExtends.locate fun hholds => hholds.mono hrest.toExtends

/-! ### Files with names of their own -/

/-- The paths of files end in names, each of them in another one. -/
structure HaveOwnNames (files : List OutputFile) : Prop where
  /-- Each path ends in a name. -/
  named : ∀ file ∈ files, ∃ name, Tree.IsName name ∧ Path.EndsIn file.path name
  /-- No name occurs twice. -/
  nodup : (files.map fun file => (Tree.pieces file.path).getLast?).Nodup

/-- A file that has been kept has another name than one that has been written. -/
theorem HaveOwnNames.exists_names {other : OutputFile}
    (h : HaveOwnNames (marked.map Prod.fst)) (hfile : (file, false) ∈ marked)
    (hother : (other, true) ∈ marked) :
    ∃ name away, Tree.IsName name ∧ Path.EndsIn (emitter.pathOf file) name ∧
      Tree.IsName away ∧ Path.EndsIn (emitter.pathOf other) away ∧ name ≠ away := by
  obtain ⟨name, hname, hends⟩ := h.named file (List.mem_map_of_mem hfile)
  obtain ⟨away, haway, hends'⟩ := h.named other (List.mem_map_of_mem hother)
  refine ⟨name, away, hname, Path.endsIn_join _ hends, haway, Path.endsIn_join _ hends', ?_⟩
  rintro rfl
  have hnodup := h.nodup
  rw [List.map_map] at hnodup
  have heq := List.inj_on_of_nodup_map hnodup hfile hother
    ((hends.getLast? hname).trans (hends'.getLast? haway).symm)
  cases (Prod.mk.inj heq).2

theorem Delivers.has (h : Delivers emitter [] marked world later) {mark : Bool}
    (hfile : (file, mark) ∈ marked) : later.Has (emitter.pathOf file) := by
  induction h with
  | stop => cases hfile
  | step hemit hrest ih =>
    rcases List.mem_cons.mp hfile with heq | hmem
    · obtain ⟨rfl, -⟩ := Prod.mk.inj heq
      exact hrest.toExtends.has (emits_of_runs hemit).has
    · exact ih hmem

/-- **Files that are kept.**  What keeps a file whose name is its own was there before the
emission, or is a directory on the way to a file that has been written. -/
theorem Delivers.kept (h : Delivers emitter [] marked world later)
    (hclosed : world.tree.IsClosed) (hown : HaveOwnNames (marked.map Prod.fst))
    (hfile : (file, false) ∈ marked) :
    ∃ place, later.locate (emitter.pathOf file) = .ok place ∧
      ((world.tree.node? place).isSome ∧
          (world.Descends (emitter.pathOf file) → world.Has (emitter.pathOf file)) ∨
        ∃ other, (other, true) ∈ marked ∧ emitter.HoldsAt later place other) := by
  obtain ⟨⟨place, node⟩, hfind⟩ := h.has hfile
  obtain ⟨hlocate, hnode, -⟩ := find_eq_ok_iff.mp hfind
  refine ⟨place, hlocate, ?_⟩
  cases hold : world.tree.node? place with
  | some =>
    exact .inl ⟨rfl, fun hdescends =>
      hdescends.has hclosed h.toExtends hfind (by rw [hold]; rfl)⟩
  | none =>
    obtain ⟨other, hother, hnew⟩ := h.new hclosed hold (by rw [hnode]; rfl)
    refine .inr ⟨other, hother, hnew.resolve_left fun hwritten => ?_⟩
    -- two paths with different names at their ends do not lead to one place
    obtain ⟨name, away, hname, hends, haway, hends', hne⟩ := hown.exists_names hfile hother
    have hlast := getLast?_of_locate hends hname hlocate
    rw [getLast?_of_locate hends' haway hwritten, Option.some.injEq] at hlast
    exact hne hlast.symm

end Emitter
end Generate
end EntitySdl
