import EntitySdl.Generate.Summary
import EntitySdl.Proofs.MergedOutput
import EntitySdl.Proofs.NewPlaces
import EntitySdl.Proofs.WholeRuns

/-! # The files of a run

The files of a project are known from the models that output is generated for: a document
for each of them or one for all, and the resolver files.  A summary counts them.  In the
mode with a document for each model, the paths end in names which all differ, since the
models do.  So no file of a run is written over another one, and what a run keeps was there
before it, as long as no directory on the way to the files has the name of one of them.
-/
namespace EntitySdl
namespace Generate

open Name World

namespace Generator

variable {g : Generator} {schema : Schema} {project : Project} {model : Model}

/-! ### Paths and kinds -/

/-- The path of the resolver file of a model, if it gets one. -/
def resolverPaths (g : Generator) (model : Model) : List (String × FileKind) :=
  if g.emitsResolvers model then [(resolverPath g.config model.name, .resolvers)] else []

/-- The paths and kinds of the files for a schema. -/
def outline (g : Generator) (schema : Schema) : List (String × FileKind) :=
  match g.config.mode with
  | .perModel => (g.models schema).flatMap fun model =>
      (model.name ++ ".graphql", .sdl) :: g.resolverPaths model
  | .merged => (g.config.mergedFile, .sdl) :: (g.models schema).flatMap g.resolverPaths

theorem name_of_resolvers {resolvers : ResolverModule}
    (h : g.resolvers model = .ok resolvers) : resolvers.model = model.name := by
  obtain ⟨relations, -, h⟩ := bind_eq_ok_iff.mp h
  cases h
  rfl

theorem map_resolverFiles {output : ModelOutput} (h : g.modelOutput model = .ok output) :
    (g.resolverFiles output).map (fun file => (file.path, file.kind)) = g.resolverPaths model := by
  obtain ⟨c, -, h⟩ := bind_eq_ok_iff.mp h
  unfold resolverPaths
  split at h
  · rename_i hemits
    obtain ⟨resolvers, hresolvers, h⟩ := bind_eq_ok_iff.mp h
    cases h
    rw [if_pos hemits, ← name_of_resolvers hresolvers]
    rfl
  · rename_i hemits
    cases h
    rw [if_neg hemits]
    rfl

theorem outputs_of_generate (h : g.generate schema = .ok project) : schema.check = .ok () ∧
    ∃ outputs, List.Forall₂ (fun model output => g.modelOutput model = .ok output)
        (g.models schema) outputs ∧
      project.files = match g.config.mode with
        | .perModel => g.perModelFiles outputs
        | .merged => g.mergedFiles outputs := by
  obtain ⟨_, hcheck, h⟩ := bind_eq_ok_iff.mp h
  obtain ⟨outputs, houtputs, h⟩ := bind_eq_ok_iff.mp h
  cases h
  exact ⟨hcheck, outputs, mapM_eq_ok_iff.mp houtputs, rfl⟩

/-- A project has the files of its outline. -/
theorem map_files (h : g.generate schema = .ok project) :
    project.files.map (fun file => (file.path, file.kind)) = g.outline schema := by
  obtain ⟨-, outputs, houtputs, hfiles⟩ := outputs_of_generate h
  rw [hfiles, outline]
  split
  · rw [perModelFiles, List.map_flatMap]
    refine (flatMap_eq_of_forall₂ houtputs fun {model output} houtput => ?_).symm
    rw [List.map_cons, map_resolverFiles houtput,
      (isComposition_of_compose (composition_of_modelOutput houtput)).name]
  · rw [mergedFiles, List.map_cons, List.map_flatMap]
    exact congrArg _ (flatMap_eq_of_forall₂ houtputs fun houtput =>
      (map_resolverFiles houtput).symm).symm

/-! ### The summary -/

/-- The size of files is the sum of those of their contents. -/
theorem totalSize_eq_foldr (files : List OutputFile) : Summary.totalSize files =
    (files.map fun file => file.content.utf8ByteSize).foldr (· + ·) 0 := by
  induction files with
  | nil => rfl
  | cons file files ih => rw [Summary.totalSize, ih, List.map_cons, List.foldr_cons]

/-- A file is a document or holds resolvers. -/
theorem totalFiles_eq (project : Project) : (Summary.ofProject project).totalFiles =
    (Summary.ofProject project).sdlFiles + (Summary.ofProject project).resolverFiles := by
  have hkinds : ∀ file : OutputFile, (file.kind == .resolvers) = !(file.kind == .sdl) :=
    fun file => by cases file.kind <;> rfl
  simp only [Summary.ofProject, Project.filesOf, hkinds]
  exact List.length_eq_length_filter_add _

theorem sdlFiles_eq (h : g.generate schema = .ok project) :
    (Summary.ofProject project).sdlFiles = match g.config.mode with
      | .perModel => (g.models schema).length
      | .merged => 1 := by
  obtain ⟨-, outputs, houtputs, hfiles⟩ := outputs_of_generate h
  rw [Summary.ofProject, Project.filesOf, hfiles]
  split
  · rw [filter_perModelFiles, List.length_map, houtputs.length_eq]
  · rw [filter_mergedFiles, List.length_singleton]

/-! ### Names of files -/

/-- The names of the files for a model. -/
def fileNames (g : Generator) (model : Model) : List String :=
  (model.name ++ ".graphql") :: if g.emitsResolvers model then [model.name ++ ".js"] else []

/-- A name of a file is that of the model with an extension. -/
theorem exists_extension {name : String} (h : name ∈ g.fileNames model) :
    ∃ extension, name = model.name ++ "." ++ extension ∧ '/' ∉ extension.toList := by
  rw [fileNames, List.mem_cons] at h
  rcases h with rfl | h
  · exact ⟨"graphql", by simp [String.append_assoc], by decide⟩
  · split at h
    · rw [List.mem_singleton.mp h]
      exact ⟨"js", by simp [String.append_assoc], by decide⟩
    · cases h

theorem ne_of_isIdentifier {name : String} {c : Char} (h : isIdentifier name)
    (hc : isNamePart c = false) : c ∉ name.toList := fun hmem => by
  rw [isNamePart_of_mem h c hmem] at hc
  cases hc

theorem isName_of_mem_fileNames {name : String} (hmodel : isIdentifier model.name)
    (h : name ∈ g.fileNames model) : Tree.IsName name := by
  obtain ⟨extension, rfl, hslash⟩ := exists_extension h
  have hpoint := ne_of_isIdentifier (c := '.') hmodel (by decide)
  have hno := ne_of_isIdentifier (c := '/') hmodel (by decide)
  cases hchars : model.name.toList with
  | nil =>
    rw [isIdentifier, hchars] at hmodel
    cases hmodel
  | cons c cs =>
    have hne : ∀ text : String, text.toList.head? ≠ some c →
        model.name ++ "." ++ extension ≠ text :=
      fun text htext heq => htext (by rw [← heq]; simp [String.toList_append, hchars])
    rw [hchars, List.mem_cons, not_or] at hpoint
    refine ⟨hne _ (by simp), hne _ (by simpa using hpoint.1), hne _ (by simpa using hpoint.1), ?_⟩
    simpa [String.toList_append] using ⟨hno, hslash⟩

/-- The name of a file tells which model it is for. -/
theorem name_eq_of_mem_fileNames {other : Model} {name : String} (hmodel : isIdentifier model.name)
    (hother : isIdentifier other.name) (h : name ∈ g.fileNames model)
    (h' : name ∈ g.fileNames other) : model.name = other.name := by
  have hstem : ∀ {model : Model}, isIdentifier model.name → name ∈ g.fileNames model →
      name.toList.takeWhile (· != '.') = model.name.toList := fun {model} hmodel h => by
    obtain ⟨extension, rfl, -⟩ := exists_extension h
    have hpoint := ne_of_isIdentifier (c := '.') hmodel (by decide)
    rw [String.toList_append, String.toList_append, List.append_assoc,
      List.takeWhile_append_of_pos fun c hc => bne_iff_ne.mpr (ne_of_mem_of_not_mem hc hpoint)]
    simp
  exact String.toList_inj.mp ((hstem hmodel h).symm.trans (hstem hother h'))

theorem isIdentifier_of_mem_models (hcheck : schema.check = .ok ())
    (h : model ∈ g.models schema) : isIdentifier model.name :=
  (Model.wellFormed_of_check (Schema.model_check hcheck (List.mem_filter.mp h).1)).name

/-- No two files have one name. -/
theorem fileNames_nodup (hcheck : schema.check = .ok ()) :
    ((g.models schema).flatMap g.fileNames).Nodup := by
  have hnames : ((g.models schema).map Model.name).Nodup :=
    (Schema.check_eq_ok_iff.mp hcheck).2.sublist (List.filter_sublist.map _)
  refine List.nodup_flatMap.mpr ⟨fun model _ => ?_, ?_⟩
  · unfold fileNames
    split
    · simp
    · simp
  · refine (List.pairwise_map.mp hnames).imp_of_mem fun {model other} hmodel hother hne => ?_
    intro name h h'
    exact hne (name_eq_of_mem_fileNames (isIdentifier_of_mem_models hcheck hmodel)
      (isIdentifier_of_mem_models hcheck hother) h h')

/-- The paths of the files for a model end in their names. -/
theorem getLast?_paths (hmodel : isIdentifier model.name) :
    ((model.name ++ ".graphql", FileKind.sdl) :: g.resolverPaths model).map
      (fun entry => (Tree.pieces entry.1).getLast?) = (g.fileNames model).map some := by
  have hname : ∀ {name}, name ∈ g.fileNames model → Tree.IsName name :=
    isName_of_mem_fileNames hmodel
  unfold fileNames resolverPaths at *
  rw [List.map_cons, List.map_cons, (Path.EndsIn.refl _).getLast? (hname List.mem_cons_self)]
  split at hname
  · rename_i hemits
    rw [if_pos hemits, if_pos hemits]
    exact congrArg (some (model.name ++ ".graphql") :: [·])
      ((Path.endsIn_join g.config.resolverDir (.refl _)).getLast? (hname (by simp)))
  · rename_i hemits
    rw [if_neg hemits, if_neg hemits]
    rfl

/-- The path of a model's file is its name, for the document, or the name below the directory
of the resolver files. -/
theorem exists_name_of_mem_paths {entry : String × FileKind}
    (h : entry ∈ (model.name ++ ".graphql", FileKind.sdl) :: g.resolverPaths model) :
    ∃ name ∈ g.fileNames model, name = model.name ++ ".graphql" ∧ entry.1 = name ∨
      entry.1 = Path.join g.config.resolverDir name := by
  rcases List.mem_cons.mp h with rfl | h
  · exact ⟨_, List.mem_cons_self, .inl ⟨rfl, rfl⟩⟩
  · unfold resolverPaths at h
    split at h
    · rename_i hemits
      obtain rfl := List.mem_singleton.mp h
      refine ⟨model.name ++ ".js", ?_, .inr rfl⟩
      rw [fileNames, if_pos hemits]
      simp
    · cases h

/-- In either case the path ends in the name. -/
theorem endsIn_of_path {document : Prop} {path name dir : String}
    (h : document ∧ path = name ∨ path = Path.join dir name) : Path.EndsIn path name := by
  rcases h with ⟨-, rfl⟩ | rfl
  · exact .refl _
  · exact Path.endsIn_join _ (.refl _)

/-- So it is with the files of a run. -/
theorem exists_name_of_mem (hmode : g.config.mode = .perModel)
    (h : g.generate schema = .ok project) {file : OutputFile} (hfile : file ∈ project.files) :
    ∃ model ∈ g.models schema, ∃ name ∈ g.fileNames model, Tree.IsName name ∧
      (name = model.name ++ ".graphql" ∧ file.path = name ∨
        file.path = Path.join g.config.resolverDir name) := by
  have hmem := List.mem_map_of_mem (f := fun file : OutputFile => (file.path, file.kind)) hfile
  rw [map_files h, outline, hmode] at hmem
  obtain ⟨model, hmodel, hmem⟩ := List.mem_flatMap.mp hmem
  obtain ⟨name, hname, hpath⟩ := exists_name_of_mem_paths hmem
  have hidentifier := isIdentifier_of_mem_models (outputs_of_generate h).1 hmodel
  exact ⟨model, hmodel, name, hname, isName_of_mem_fileNames hidentifier hname, hpath⟩

/-- The files of single models have names of their own. -/
theorem haveOwnNames (hmode : g.config.mode = .perModel) (h : g.generate schema = .ok project) :
    Emitter.HaveOwnNames project.files := by
  refine ⟨fun file hfile => ?_, ?_⟩
  · obtain ⟨model, -, name, -, hname, hpath⟩ := exists_name_of_mem hmode h hfile
    exact ⟨name, hname, endsIn_of_path hpath⟩
  · have hcheck := (outputs_of_generate h).1
    have hpaths : project.files.map (fun file => (Tree.pieces file.path).getLast?) =
        (project.files.map fun file => (file.path, file.kind)).map
          fun entry => (Tree.pieces entry.1).getLast? := by
      rw [List.map_map]
      rfl
    have hlast : project.files.map (fun file => (Tree.pieces file.path).getLast?) =
        ((g.models schema).flatMap g.fileNames).map some := by
      rw [hpaths, map_files h, outline, hmode, List.map_flatMap, List.map_flatMap]
      exact List.flatMap_congr fun model hmodel =>
        getLast?_paths (isIdentifier_of_mem_models hcheck hmodel)
    rw [hlast]
    exact (fileNames_nodup hcheck).map fun _ _ => Option.some.inj

/-- Paths of files with names of their own are not the same. -/
theorem pairwise_not_same {files : List OutputFile} (h : Emitter.HaveOwnNames files) :
    files.Pairwise fun file other => Path.same file.path other.path = false := by
  refine (List.pairwise_map.mp h.nodup).imp_of_mem fun {file other} hfile hother hne => ?_
  obtain ⟨name, hname, hends⟩ := h.named file hfile
  obtain ⟨away, haway, hends'⟩ := h.named other hother
  rw [hends.getLast? hname, hends'.getLast? haway, ne_eq, Option.some.injEq] at hne
  exact hends.not_same hname hends' haway hne

/-! ### Directories on the way to the files -/

/-- The pieces on the way to a file are those of the output directory and of that for the
resolver files. -/
theorem mem_pieces_pathOf (hmode : g.config.mode = .perModel)
    (h : g.generate schema = .ok project) {file : OutputFile} (hfile : file ∈ project.files)
    {piece : String} (hpiece : piece ∈ Tree.pieces ((Emitter.ofConfig g.config).pathOf file)) :
    piece ∈ Tree.pieces g.config.outputDir ∨ piece ∈ Tree.pieces g.config.resolverDir ∨
      ∃ name, Tree.IsName name ∧ Path.EndsIn file.path name ∧ piece = name := by
  obtain ⟨model, -, name, -, hname, hpath⟩ := exists_name_of_mem hmode h hfile
  have hjoin : ∀ {dir path : String}, piece ∈ Tree.pieces (Path.join dir path) →
      piece ∈ Tree.pieces dir ∨ piece ∈ Tree.pieces path := fun {dir path} hmem => by
    cases habsolute : Path.isAbsolute path with
    | false => rwa [Tree.pieces_join dir habsolute, List.mem_append] at hmem
    | true =>
      rw [Path.join, if_pos habsolute] at hmem
      exact .inr hmem
  have hself : piece ∈ Tree.pieces name → piece = name := fun hmem => by
    rw [hname.pieces] at hmem
    exact List.mem_singleton.mp hmem
  rcases hjoin hpiece with hmem | hmem
  · exact .inl hmem
  · have hends : Path.EndsIn file.path name := endsIn_of_path hpath
    rcases hpath with ⟨-, hpath⟩ | hpath
    · rw [hpath] at hmem
      exact .inr (.inr ⟨name, hname, hends, hself hmem⟩)
    · rw [hpath] at hmem
      exact .inr ((hjoin hmem).imp_right fun hmem => ⟨name, hname, hends, hself hmem⟩)

/-- The directories of a configuration are led to by going down only, those of the resolver
files from the output directory. -/
structure GoesDown (config : Config) : Prop where
  /-- The resolver files are below the output directory. -/
  relative : Path.isAbsolute config.resolverDir = false
  /-- The output directory is not led to by going up. -/
  outer : ".." ∉ Tree.pieces config.outputDir
  /-- Neither is the directory of the resolver files. -/
  inner : ".." ∉ Tree.pieces config.resolverDir

/-- The pieces of a path where it only goes down. -/
theorem GoesDown.exists_pieces (hdown : GoesDown g.config) (hmode : g.config.mode = .perModel)
    (h : g.generate schema = .ok project) {file : OutputFile} (hfile : file ∈ project.files) :
    ∃ model ∈ g.models schema, ∃ name inner, Tree.IsName name ∧ Path.EndsIn file.path name ∧
      Tree.pieces ((Emitter.ofConfig g.config).pathOf file) =
        Tree.pieces g.config.outputDir ++ (inner ++ [name]) ∧
      ".." ∉ Tree.pieces ((Emitter.ofConfig g.config).pathOf file) ∧
      Path.isAbsolute ((Emitter.ofConfig g.config).pathOf file) =
        Path.isAbsolute g.config.outputDir ∧
      (inner = [] ∧ name = model.name ++ ".graphql" ∨
        inner = Tree.pieces g.config.resolverDir) := by
  obtain ⟨model, hmodel, name, -, hname, hpath⟩ := exists_name_of_mem hmode h hfile
  have hrelative : Path.isAbsolute file.path = false := by
    rcases hpath with ⟨-, hpath⟩ | hpath
    · rw [hpath, hname.isAbsolute]
    · rw [hpath, Tree.isAbsolute_join _ hname.isAbsolute, hdown.relative]
  have hpieces : Tree.pieces ((Emitter.ofConfig g.config).pathOf file) =
      Tree.pieces g.config.outputDir ++ Tree.pieces file.path := Tree.pieces_join _ hrelative
  have habsolute : Path.isAbsolute ((Emitter.ofConfig g.config).pathOf file) =
      Path.isAbsolute g.config.outputDir := Tree.isAbsolute_join _ hrelative
  have hdots := Ne.symm hname.2.2.1
  rcases hpath with ⟨hdocument, hpath⟩ | hpath
  · rw [hpath, hname.pieces] at hpieces
    refine ⟨model, hmodel, name, [], hname, hpath ▸ .refl _, hpieces, ?_, habsolute,
      .inl ⟨rfl, hdocument⟩⟩
    simp [hpieces, hdown.outer, hdots]
  · rw [hpath, Tree.pieces_join _ hname.isAbsolute, hname.pieces] at hpieces
    refine ⟨model, hmodel, name, _, hname, hpath ▸ Path.endsIn_join _ (.refl _), hpieces, ?_,
      habsolute, .inr rfl⟩
    simp [hpieces, hdown.outer, hdown.inner, hdots]

/-- No directory on the way to the files of a run has the name of one of them.  Where paths
only go down, this comes down to the documents and the directory of the resolver files. -/
structure HasClearDirectories (g : Generator) (schema : Schema) : Prop where
  /-- No document has the name of a directory around the resolver files. -/
  documents : ∀ model ∈ g.models schema,
    model.name ++ ".graphql" ∉ Tree.pieces g.config.resolverDir
  /-- No file has the name of a directory that can be led to in other ways. -/
  others : ¬ GoesDown g.config → ∀ model ∈ g.models schema, ∀ name ∈ g.fileNames model,
    name ∉ Tree.pieces g.config.outputDir ∧ name ∉ Tree.pieces g.config.resolverDir

variable {later : World} {place : Place} {file other : OutputFile} {name away : String}

/-- Where paths only go down, a directory on the way to a file stands where another file goes
only if that is a document, and its name that of a directory around the resolver files. -/
theorem GoesDown.not_holdsAt (hdown : GoesDown g.config) (hmode : g.config.mode = .perModel)
    (h : g.generate schema = .ok project)
    (hclear : ∀ model ∈ g.models schema,
      model.name ++ ".graphql" ∉ Tree.pieces g.config.resolverDir)
    (hfile : file ∈ project.files) (hother : other ∈ project.files)
    (hname : Tree.IsName name) (haway : Tree.IsName away)
    (hends : Path.EndsIn ((Emitter.ofConfig g.config).pathOf file) name)
    (hends' : Path.EndsIn ((Emitter.ofConfig g.config).pathOf other) away) (hne : name ≠ away)
    (hlocate : later.locate ((Emitter.ofConfig g.config).pathOf file) = .ok place) :
    ¬ (Emitter.ofConfig g.config).HoldsAt later place other := by
  rintro ⟨holder, hholder, hspot, -⟩
  have hpieced := pieces_holder hholder
  obtain ⟨model, hmodel, known, inner, hknown, hendsKnown, hpieces, hdots, habsolute, hkind⟩ :=
    hdown.exists_pieces hmode h hfile
  obtain rfl := hends.unique hname (Path.endsIn_join _ hendsKnown) hknown
  obtain ⟨_, _, last, inner', hlast, hendsLast, hpieces', hdots', habsolute', hkind'⟩ :=
    hdown.exists_pieces hmode h hother
  obtain rfl := hends'.unique haway (Path.endsIn_join _ hendsLast) hlast
  have hsame := pieces_eq_of_locate hdots (fun hmem => hdots' (hpieced.subset hmem))
    (habsolute.trans (habsolute'.symm.trans (isAbsolute_holder hholder).symm)) hlocate hspot
  -- what is behind the output directory
  have hinside : inner.filter (· != ".") ++ [known] <+: inner'.filter (· != ".") ++ [last] := by
    have hfiltered := hpieced.filter (· != ".")
    have hown : ∀ {name : String}, Tree.IsName name → [name].filter (· != ".") = [name] :=
      fun hname => List.filter_cons_of_pos (bne_iff_ne.mpr hname.2.1)
    rw [← hsame, hpieces, hpieces'] at hfiltered
    simpa only [List.filter_append, hown hknown, hown hlast, List.prefix_append_right_inj] using
      hfiltered
  rcases List.prefix_concat_iff.mp hinside with heq | hinside
  · exact hne (List.singleton_inj.mp (List.append_inj' heq rfl).2)
  · have hlength := hinside.length_le
    rw [List.length_append, List.length_singleton] at hlength
    rcases hkind' with ⟨rfl, -⟩ | rfl
    · simp at hlength
    · rcases hkind with ⟨rfl, rfl⟩ | rfl
      · have hmem := hinside.subset (List.mem_append_right _ (List.mem_singleton_self _))
        exact hclear model hmodel (List.mem_of_mem_filter hmem)
      · omega

/-- No directory on the way to a file stands where another file goes. -/
theorem HasClearDirectories.not_holdsAt (hclear : g.HasClearDirectories schema)
    (hmode : g.config.mode = .perModel) (h : g.generate schema = .ok project)
    (hfile : file ∈ project.files) (hother : other ∈ project.files)
    (hname : Tree.IsName name) (haway : Tree.IsName away)
    (hends : Path.EndsIn ((Emitter.ofConfig g.config).pathOf file) name)
    (hends' : Path.EndsIn ((Emitter.ofConfig g.config).pathOf other) away) (hne : name ≠ away)
    (hlocate : later.locate ((Emitter.ofConfig g.config).pathOf file) = .ok place) :
    ¬ (Emitter.ofConfig g.config).HoldsAt later place other := by
  by_cases hdown : GoesDown g.config
  · exact hdown.not_holdsAt hmode h hclear.documents hfile hother hname haway hends hends' hne
      hlocate
  rintro ⟨holder, hholder, -, piece, hpiece, hlast⟩
  rw [getLast?_of_locate hends hname hlocate, Option.some.injEq] at hlast
  subst hlast
  obtain ⟨model, hmodel, known, hown, hknown, hpath⟩ := exists_name_of_mem hmode h hfile
  obtain rfl := hends.unique hname (Path.endsIn_join _ (endsIn_of_path hpath)) hknown
  obtain ⟨houter, hinner⟩ := hclear.others hdown model hmodel _ hown
  rcases mem_pieces_pathOf hmode h hother ((pieces_holder hholder).subset hpiece) with
    hmem | hmem | ⟨last, hlast, hendsLast, rfl⟩
  · exact houter hmem
  · exact hinner hmem
  · exact hne (hends'.unique haway (Path.endsIn_join _ hendsLast) hlast)

/-! ### Runs -/

/-- A path leads, after an emission, to what was there before.  It led there before as well,
if it did not go up further than it led. -/
def WasThere (world later : World) (path : String) : Prop :=
  ∃ place, later.locate path = .ok place ∧ (world.tree.node? place).isSome ∧
    (world.Descends path → world.Has path)

variable {world : World} {deliveries : Deliveries}

/-- What a run with a document for each model writes and keeps. -/
theorem emitted_files (hmode : g.config.mode = .perModel) (h : g.generate schema = .ok project)
    (hclosed : world.tree.IsClosed)
    (hemit : Runs ((Emitter.ofConfig g.config).emitAll project.files {}) world
      (.ok (), deliveries) later) :
    (∀ written ∈ deliveries.written, ∀ kept ∈ deliveries.kept, Path.same written kept = false) ∧
      deliveries.written.length + deliveries.kept.length = project.files.length ∧
      (g.HasClearDirectories schema → ∀ kept ∈ deliveries.kept, WasThere world later kept) := by
  have hown := haveOwnNames hmode h
  obtain ⟨marked, hfiles, rfl, hmarked⟩ := Emitter.exists_delivers hemit (.refl [] later)
  have hmem : ∀ {mark path}, path ∈ (Emitter.ofConfig g.config).pathsMarked mark marked →
      ∃ file, (file, mark) ∈ marked ∧ file ∈ project.files ∧
        path = (Emitter.ofConfig g.config).pathOf file := by
    intro mark path hpath
    obtain ⟨⟨file, found⟩, hentry, rfl⟩ := List.mem_map.mp hpath
    obtain ⟨hfile, hfound⟩ := List.mem_filter.mp hentry
    obtain rfl : found = mark := beq_iff_eq.mp hfound
    exact ⟨file, hfile, hfiles ▸ List.mem_map_of_mem hfile, rfl⟩
  rw [hfiles] at hown
  refine ⟨fun written hwritten kept hkept => ?_, ?_, fun hclear kept hkept => ?_⟩
  · obtain ⟨other, hother, -, rfl⟩ := hmem hwritten
    obtain ⟨file, hfile, -, rfl⟩ := hmem hkept
    obtain ⟨name, away, hname, hends, haway, hends', hne⟩ := hown.exists_names hfile hother
    exact hends'.not_same haway hends hname (Ne.symm hne)
  · have hcount := Emitter.count_of_emitAll hemit
    simpa using hcount
  · obtain ⟨file, hfile, hproject, rfl⟩ := hmem hkept
    obtain ⟨place, hlocate, ⟨hthere, hhas⟩ | ⟨other, hother, hholds⟩⟩ :=
      hmarked.kept hclosed hown hfile
    · exact ⟨place, hlocate, hthere, hhas⟩
    · obtain ⟨name, away, hname, hends, haway, hends', hne⟩ := hown.exists_names hfile hother
      exact absurd hholds (hclear.not_holdsAt hmode h hproject
        (hfiles ▸ List.mem_map_of_mem hother) hname haway hends hends' hne hlocate)

/-- **The files of a run.**  A project has a document for each model or one for all, and the
resolver files, in the order of the models, and its summary counts them.  With a document
for each model, no two paths are the same.  So no file is both written and kept, each is
one of them, and what is kept was there before the run, unless a directory on the way to
the files has the name of one of them. -/
theorem output_files (h : g.generate schema = .ok project) :
    project.files.map (fun file => (file.path, file.kind)) = g.outline schema ∧
    (Summary.ofProject project).totalFiles =
      (Summary.ofProject project).sdlFiles + (Summary.ofProject project).resolverFiles ∧
    (Summary.ofProject project).sdlFiles = (match g.config.mode with
      | .perModel => (g.models schema).length
      | .merged => 1) ∧
    (Summary.ofProject project).totalBytes =
      (project.files.map fun file => file.content.utf8ByteSize).foldr (· + ·) 0 ∧
    (g.config.mode = .perModel →
      (project.files.Pairwise fun file other => Path.same file.path other.path = false) ∧
      ∀ {σ : Type} (onComplete : List String → StateT σ (StateM World) Unit) (state state' : σ)
        (world later : World) (report : RunReport), world.tree.IsClosed →
        g.runFrom onComplete schema state world = ((.ok report, state'), later) →
        (∀ written ∈ report.deliveries.written, ∀ kept ∈ report.deliveries.kept,
          Path.same written kept = false) ∧
        report.deliveries.written.length + report.deliveries.kept.length =
          (Summary.ofProject project).totalFiles ∧
        ∃ emitted, Runs ((Emitter.ofConfig g.config).emitAll project.files {}) world
            (.ok (), report.deliveries) emitted ∧
          (g.HasClearDirectories schema →
            ∀ kept ∈ report.deliveries.kept, WasThere world emitted kept)) := by
  refine ⟨map_files h, totalFiles_eq project, sdlFiles_eq h, totalSize_eq_foldr _, fun hmode =>
    ⟨pairwise_not_same (haveOwnNames hmode h), fun onComplete state state' world later report
      hclosed hrun => ?_⟩⟩
  obtain ⟨hgenerate, emitted, hemit, -⟩ := emitted_of_ok hrun
  rw [h, Except.ok.injEq] at hgenerate
  subst hgenerate
  obtain ⟨happart, hcount, hthere⟩ := emitted_files hmode h hclosed hemit
  exact ⟨happart, hcount, emitted, hemit, hthere⟩

/-- A generator that writes below a directory. -/
def exporter (resolverDir : String) : Generator := { config := { outputDir := "out", resolverDir } }

/-- A world in which the document of a book is there already. -/
def stocked : World :=
  { tree := { nodes := [(["out"], .directory), (["out", "Book.graphql"], .file "")] } }

/-- The document of a book is kept, and its resolver file is written. -/
theorem output_files_shelf :
    (exporter "resolvers").config.mode = .perModel ∧
    (exporter "resolvers").HasClearDirectories shelf ∧ stocked.tree.IsClosed ∧
    ∃ project report later, (exporter "resolvers").generate shelf = .ok project ∧
      (exporter "resolvers").runFrom record shelf [] stocked =
        ((.ok report, [["out/resolvers/Book.js"]]), later) ∧
      report.deliveries = ⟨["out/resolvers/Book.js"], ["out/Book.graphql"]⟩ ∧
      ∃ emitted, WasThere stocked emitted "out/Book.graphql" := by
  have hclosed : stocked.tree.IsClosed := by decide
  have hclear : (exporter "resolvers").HasClearDirectories shelf :=
    ⟨by decide +kernel, fun hup => absurd ⟨by decide, by decide +kernel, by decide +kernel⟩ hup⟩
  have hends : (((exporter "resolvers").runFrom record shelf [] stocked).1.map
      (fun answer => answer.toOption.map RunReport.deliveries) id) =
      (some ⟨["out/resolvers/Book.js"], ["out/Book.graphql"]⟩, [["out/resolvers/Book.js"]]) := by
    decide +kernel
  obtain ⟨report, later, hrun, hgiven⟩ := exists_runFrom_ok _ hends
  obtain ⟨hgenerate, -⟩ := emitted_of_ok hrun
  obtain ⟨-, -, -, -, hmodels⟩ := output_files hgenerate
  obtain ⟨-, -, emitted, -, hthere⟩ :=
    (hmodels rfl).2 record [] _ stocked later report hclosed hrun
  exact ⟨rfl, hclear, hclosed, report.project, report, later, hgenerate, hrun, hgiven,
    emitted, hthere hclear _ (by rw [hgiven]; exact List.mem_singleton_self _)⟩

/-- A schema of two models. -/
def letters : Schema where
  models := [{ name := "Beta", properties := [⟨"title", .scalar .string {}⟩] },
    { name := "Alpha", properties := [⟨"title", .scalar .string {}⟩] }]

/-- A run creates `out/Alpha.js` on the way to the resolver file of one model, and then keeps
it for that of the other, in a world where there was nothing before. -/
theorem run_keeps_new_directory :
    (∀ model ∈ letters.models, model.name ++ ".graphql" ∉ Tree.pieces "Alpha.js/..") ∧
    ({} : World).tree.node? ["out", "Alpha.js"] = none ∧
    ∃ report later, (exporter "Alpha.js/..").runFrom record letters [] {} =
        ((.ok report, [report.deliveries.written]), later) ∧
      report.deliveries.kept = ["out/Alpha.js/../Alpha.js"] ∧
      later.locate "out/Alpha.js/../Alpha.js" = .ok ["out", "Alpha.js"] := by
  refine ⟨by decide +kernel, rfl, ?_⟩
  have hends : (((exporter "Alpha.js/..").runFrom record letters [] {}).1.map
      (fun answer => answer.toOption.map fun report =>
        (report.deliveries.written, report.deliveries.kept)) id) =
      (some (["out/Beta.graphql", "out/Alpha.js/../Beta.js", "out/Alpha.graphql"],
        ["out/Alpha.js/../Alpha.js"]),
        [["out/Beta.graphql", "out/Alpha.js/../Beta.js", "out/Alpha.graphql"]]) := by
    decide +kernel
  have hleads : ((exporter "Alpha.js/..").runFrom record letters [] {}).2.locate
      "out/Alpha.js/../Alpha.js" = .ok ["out", "Alpha.js"] := by decide +kernel
  obtain ⟨report, later, hrun, hdeliveries⟩ := exists_runFrom_ok _ hends
  obtain ⟨hwritten, hkept⟩ := Prod.mk.inj hdeliveries
  rw [← hwritten] at hrun
  rw [hrun] at hleads
  exact ⟨report, later, hrun, hkept, hleads⟩

end Generator
end Generate
end EntitySdl
