import EntitySdl.Proofs.Outcome
import EntitySdl.Proofs.OutputFiles

/-! # Schemas behind one another

With a document for each model, a run treats every model by itself.  The files of a model
(`modelFiles`) are known from the model alone, and a run lists those of its models in
order.  So a run over a schema behind another succeeds where the runs over both do and no
name is in both, and has the files of both.  What a project has at the path of a model's
file is what the model gives, whichever models stand around it.
-/
namespace EntitySdl

/-- The models of a schema, and then those of another. -/
instance : Append Schema where
  append left right := { models := left.models ++ right.models }

@[simp] theorem Schema.models_append (left right : Schema) :
    (left ++ right).models = left.models ++ right.models := rfl

/-- A schema behind another passes the rules where both do and no name is in both. -/
theorem Schema.check_append_eq_ok_iff {left right : Schema} :
    (left ++ right).check = .ok () ↔ left.check = .ok () ∧ right.check = .ok () ∧
      ∀ model ∈ left.models, ∀ other ∈ right.models, model.name ≠ other.name := by
  have happart : (∀ name ∈ left.models.map Model.name, ∀ other ∈ right.models.map Model.name,
      name ≠ other) ↔
      ∀ model ∈ left.models, ∀ other ∈ right.models, model.name ≠ other.name := by
    simp only [List.forall_mem_map]
  simp only [Schema.check_eq_ok_iff, Schema.models_append, List.map_append, List.nodup_append,
    List.forall_mem_append, happart]
  tauto

/-- What is found among the contributions of a list's elements is what one of them
contributes, if no other contributes anything to be found. -/
theorem find?_flatMap_of_mem {α β : Type} {elements : List α} {element : α} {f : α → List β}
    {p : β → Bool} (hmem : element ∈ elements)
    (hothers : ∀ other ∈ elements, other ≠ element → (f other).find? p = none) :
    (elements.flatMap f).find? p = (f element).find? p := by
  rw [List.find?_flatMap]
  obtain ⟨before, after, rfl, hnew⟩ := List.eq_append_cons_of_mem hmem
  cases hown : (f element).find? p with
  | some found =>
    -- nothing is found before its first place in the list
    refine List.findSome?_eq_some_iff.mpr ⟨before, element, after, rfl, hown, fun other h => ?_⟩
    exact hothers other (List.mem_append_left _ h) (ne_of_mem_of_not_mem h hnew)
  | none =>
    refine List.findSome?_eq_none_iff.mpr fun other h => ?_
    by_cases heq : other = element
    · exact heq ▸ hown
    · exact hothers other h heq

namespace Generate

open Name

namespace Generator

variable {g : Generator} {schema left right : Schema} {project : Project} {model other : Model}

theorem models_append (g : Generator) (left right : Schema) :
    g.models (left ++ right) = g.models left ++ g.models right :=
  List.filter_append left.models right.models

/-- A run over a schema behind another succeeds where the runs over both do and no name is in
both. -/
theorem generate_append_isOk_iff :
    (∃ project, g.generate (left ++ right) = .ok project) ↔
      (∃ project, g.generate left = .ok project) ∧
      (∃ project, g.generate right = .ok project) ∧
        ∀ model ∈ left.models, ∀ other ∈ right.models, model.name ≠ other.name := by
  simp only [generate_isOk_iff, Schema.check_append_eq_ok_iff, models_append,
    List.forall_mem_append]
  tauto

/-- In a run that succeeds, output is generated for each model that takes part. -/
theorem modelOutput_isOk (h : g.generate schema = .ok project) (hmodel : model ∈ g.models schema) :
    ∃ output, g.modelOutput model = .ok output := by
  obtain ⟨hcheck, haccepts⟩ := (g.generate_isOk_iff schema).mp ⟨project, h⟩
  have hmodelCheck := Schema.model_check hcheck (List.mem_filter.mp hmodel).1
  refine (g.modelOutput_reports model hmodelCheck).isOk_iff.mpr ?_
  exact (g.offences_eq_nil_iff model).mpr (haccepts model hmodel)

/-! ### The files of a model -/

/-- The files that a model gives by itself. -/
def modelFiles (g : Generator) (model : Model) : List OutputFile :=
  match g.modelOutput model with
  | .ok output => g.perModelFiles [output]
  | .error _ => []

/-- The paths of the files of a model. -/
def filePaths (g : Generator) (model : Model) : List String :=
  (model.name ++ ".graphql") :: (g.resolverPaths model).map Prod.fst

/-- A run with a document for each model lists the files that its models give. -/
theorem files_eq_flatMap (hmode : g.config.mode = .perModel)
    (h : g.generate schema = .ok project) :
    project.files = (g.models schema).flatMap g.modelFiles := by
  obtain ⟨-, outputs, houtputs, hfiles⟩ := outputs_of_generate h
  rw [hmode] at hfiles
  refine hfiles.trans (flatMap_eq_of_forall₂ houtputs fun {model output} houtput => ?_).symm
  rw [modelFiles, houtput]
  exact List.flatMap_singleton _ _

theorem map_path_modelFiles {output : ModelOutput} (h : g.modelOutput model = .ok output) :
    (g.modelFiles model).map OutputFile.path = g.filePaths model := by
  have hpaths := congrArg (List.map Prod.fst) (map_resolverFiles h)
  rw [List.map_map] at hpaths
  rw [modelFiles, h, filePaths, ← hpaths,
    ← (isComposition_of_compose (composition_of_modelOutput h)).name]
  simp [perModelFiles, Function.comp_def]

/-- The files of a model stand at its paths. -/
theorem path_mem_filePaths {file : OutputFile} (h : file ∈ g.modelFiles model) :
    file.path ∈ g.filePaths model := by
  cases houtput : g.modelOutput model with
  | ok output => exact map_path_modelFiles houtput ▸ List.mem_map_of_mem h
  | error fault =>
    rw [modelFiles, houtput] at h
    cases h

/-- A path of a model's file ends in a name of it. -/
theorem exists_endsIn_of_mem_filePaths {path : String} (h : path ∈ g.filePaths model) :
    ∃ name ∈ g.fileNames model, Path.EndsIn path name := by
  obtain ⟨entry, hentry, rfl⟩ : ∃ entry ∈
      (model.name ++ ".graphql", FileKind.sdl) :: g.resolverPaths model, entry.1 = path :=
    List.mem_map.mp h
  obtain ⟨name, hname, hpath⟩ := exists_name_of_mem_paths hentry
  exact ⟨name, hname, endsIn_of_path hpath⟩

/-- The files of a model do not stand at the paths of another. -/
theorem find?_modelFiles_of_ne {path : String} (hmodel : isIdentifier model.name)
    (hother : isIdentifier other.name) (hne : other.name ≠ model.name)
    (hpath : path ∈ g.filePaths model) :
    (g.modelFiles other).find? (fun file => Path.same file.path path) = none := by
  refine List.find?_eq_none.mpr fun file hfile => Bool.not_eq_true _ ▸ ?_
  obtain ⟨away, haway, hends'⟩ := exists_endsIn_of_mem_filePaths (path_mem_filePaths hfile)
  obtain ⟨name, hname, hends⟩ := exists_endsIn_of_mem_filePaths hpath
  refine hends'.not_same (isName_of_mem_fileNames hother haway) hends
    (isName_of_mem_fileNames hmodel hname) ?_
  rintro rfl
  exact hne (name_eq_of_mem_fileNames hother hmodel haway hname)

/-- What a project has at a path of a model's file is what the model gives, if it takes
part. -/
theorem file?_eq (hmode : g.config.mode = .perModel) (h : g.generate schema = .ok project)
    (hmodel : model ∈ schema.models) {path : String} (hpath : path ∈ g.filePaths model) :
    project.file? path = if g.emits model then
      (g.modelFiles model).find? (fun file => Path.same file.path path) else none := by
  obtain ⟨hchecks, hnames⟩ := Schema.check_eq_ok_iff.mp (outputs_of_generate h).1
  have hname : ∀ other ∈ schema.models, isIdentifier other.name := fun other hother =>
    (Model.wellFormed_of_check (hchecks other hother)).name
  have hothers : ∀ other ∈ g.models schema, other ≠ model →
      (g.modelFiles other).find? (fun file => Path.same file.path path) = none := by
    intro other hother hne
    have hother := (List.mem_filter.mp hother).1
    exact find?_modelFiles_of_ne (hname model hmodel) (hname other hother)
      (fun heq => hne (List.inj_on_of_nodup_map hnames hother hmodel heq)) hpath
  rw [Project.file?, files_eq_flatMap hmode h]
  split
  · rename_i hemits
    exact find?_flatMap_of_mem (List.mem_filter.mpr ⟨hmodel, hemits⟩) hothers
  · rename_i hemits
    rw [List.find?_flatMap]
    refine List.findSome?_eq_none_iff.mpr fun other hother => hothers other hother ?_
    rintro rfl
    exact hemits (List.mem_filter.mp hother).2

/-- A project has a file at each path of a model that takes part. -/
theorem isSome_file? (hmode : g.config.mode = .perModel) (h : g.generate schema = .ok project)
    (hmodel : model ∈ schema.models) {path : String} (hpath : path ∈ g.filePaths model) :
    (project.file? path).isSome = g.emits model := by
  rw [file?_eq hmode h hmodel hpath]
  cases hemits : g.emits model with
  | false => rfl
  | true =>
    obtain ⟨output, houtput⟩ := modelOutput_isOk h (List.mem_filter.mpr ⟨hmodel, hemits⟩)
    obtain ⟨file, hfile, rfl⟩ := List.mem_map.mp (map_path_modelFiles houtput ▸ hpath)
    exact List.find?_isSome.mpr ⟨file, hfile, beq_self_eq_true _⟩

/-- **Models do not meet.**  With a document for each model, a run over a schema behind
another succeeds exactly when the runs over both do and no model of one has the name of a
model of the other, and its files are those of the two runs.  In any two schemas with a
model in common, a path of its files leads to the same file, with the same content, and to
one exactly where the model takes part. -/
theorem generate_append (hmode : g.config.mode = .perModel) :
    (∀ left right : Schema, (∃ project, g.generate (left ++ right) = .ok project) ↔
      (∃ project, g.generate left = .ok project) ∧
      (∃ project, g.generate right = .ok project) ∧
        ∀ model ∈ left.models, ∀ other ∈ right.models, model.name ≠ other.name) ∧
    (∀ (left right : Schema) (first second joined : Project), g.generate left = .ok first →
      g.generate right = .ok second → g.generate (left ++ right) = .ok joined →
        joined.files = first.files ++ second.files) ∧
    ∀ (left right : Schema) (first second : Project), g.generate left = .ok first →
      g.generate right = .ok second → ∀ model ∈ left.models, model ∈ right.models →
        ∀ path ∈ g.filePaths model, first.file? path = second.file? path ∧
          (first.file? path).isSome = g.emits model := by
  refine ⟨fun _ _ => generate_append_isOk_iff, ?_, ?_⟩
  · intro left right first second joined hleft hright hjoined
    rw [files_eq_flatMap hmode hleft, files_eq_flatMap hmode hright,
      files_eq_flatMap hmode hjoined, models_append, List.flatMap_append]
  · intro left right first second hleft hright model hmodel hmodel' path hpath
    refine ⟨?_, isSome_file? hmode hleft hmodel hpath⟩
    rw [file?_eq hmode hleft hmodel hpath, file?_eq hmode hright hmodel' hpath]

/-- The shelf and the letters behind one another, in either order. -/
theorem generate_append_shelf : (exporter "resolvers").config.mode = .perModel ∧
    ∃ books mail joined turned, (exporter "resolvers").generate shelf = .ok books ∧
      (exporter "resolvers").generate letters = .ok mail ∧
      (exporter "resolvers").generate (shelf ++ letters) = .ok joined ∧
      (exporter "resolvers").generate (letters ++ shelf) = .ok turned ∧
      joined.files = books.files ++ mail.files ∧
      turned.files = mail.files ++ books.files ∧
      books.file? "resolvers/Book.js" = joined.file? "resolvers/Book.js" ∧
      (books.file? "resolvers/Book.js").isSome := by
  obtain ⟨hruns, hfiles, hpaths⟩ := generate_append (g := exporter "resolvers") rfl
  have hbooks : ∃ books, (exporter "resolvers").generate shelf = .ok books := ⟨_, rfl⟩
  have hmail : ∃ mail, (exporter "resolvers").generate letters = .ok mail := ⟨_, rfl⟩
  obtain ⟨joined, hjoined⟩ := (hruns shelf letters).mpr ⟨hbooks, hmail, by decide⟩
  obtain ⟨turned, hturned⟩ := (hruns letters shelf).mpr ⟨hmail, hbooks, by decide⟩
  obtain ⟨books, hbooks⟩ := hbooks
  obtain ⟨mail, hmail⟩ := hmail
  obtain ⟨hsame, hthere⟩ := hpaths shelf (shelf ++ letters) books joined hbooks hjoined _
    (List.mem_singleton_self _) List.mem_cons_self "resolvers/Book.js" (by decide)
  exact ⟨rfl, books, mail, joined, turned, hbooks, hmail, hjoined, hturned,
    hfiles _ _ _ _ _ hbooks hmail hjoined, hfiles _ _ _ _ _ hmail hbooks hturned, hsame, hthere⟩

end Generator
end Generate
end EntitySdl
