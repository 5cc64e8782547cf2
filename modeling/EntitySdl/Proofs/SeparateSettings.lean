import EntitySdl.Proofs.OutputFiles

/-! # Settings for one kind of output

Each setting is for the documents, for the resolver files, or for neither; the shape of
queries for a single record is for both.  The documents of a run are computed with the
settings for documents alone (`documents`), and its resolver files with those for resolver
files alone (`resolverDocuments`).  So no setting for one kind of output shows in the other,
and none at all shows in the warnings.
-/
namespace EntitySdl
namespace Generate

open Sdl

namespace Config

/-- The settings for documents, with all others at their defaults. -/
def forDocuments (config : Config) : Config where
  mode := config.mode
  mergedFile := config.mergedFile
  idScalar := config.idScalar
  filters := config.filters
  lookup := config.lookup
  fieldDirectives := config.fieldDirectives

/-- The settings for resolver files, with all others at their defaults. -/
def forResolvers (config : Config) : Config where
  emitResolvers := config.emitResolvers
  lookup := config.lookup
  outputKind := config.outputKind
  resolverDir := config.resolverDir
  relationResolvers := config.relationResolvers

/-- Two configurations agree on what documents are made from. -/
structure AgreeOnDocuments (left right : Config) : Prop where
  mode : left.mode = right.mode
  mergedFile : left.mergedFile = right.mergedFile
  idScalar : left.idScalar = right.idScalar
  filters : left.filters = right.filters
  lookup : left.lookup = right.lookup
  fieldDirectives : left.fieldDirectives = right.fieldDirectives

/-- Two configurations agree on what resolver files are made from. -/
structure AgreeOnResolvers (left right : Config) : Prop where
  emitResolvers : left.emitResolvers = right.emitResolvers
  lookup : left.lookup = right.lookup
  outputKind : left.outputKind = right.outputKind
  resolverDir : left.resolverDir = right.resolverDir
  relationResolvers : left.relationResolvers = right.relationResolvers

variable {left right : Config}

theorem AgreeOnDocuments.forDocuments_eq (h : left.AgreeOnDocuments right) :
    left.forDocuments = right.forDocuments := by
  rw [forDocuments, forDocuments, h.mode, h.mergedFile, h.idScalar, h.filters, h.lookup,
    h.fieldDirectives]

theorem AgreeOnResolvers.forResolvers_eq (h : left.AgreeOnResolvers right) :
    left.forResolvers = right.forResolvers := by
  rw [forResolvers, forResolvers, h.emitResolvers, h.lookup, h.outputKind, h.resolverDir,
    h.relationResolvers]

end Config

namespace Generator

variable {g : Generator} {schema : Schema} {project : Project} {model : Model}

/-! ### The kinds of output by themselves -/

/-- The documents of a run, without the resolver files. -/
def documents (g : Generator) (schema : Schema) : Except Fault (List OutputFile) := do
  let compositions ← (g.models schema).mapM g.compose
  return match g.config.mode with
    | .perModel => compositions.map fun composition =>
      ⟨composition.name ++ ".graphql", .sdl, composition.fragment.render⟩
    | .merged => [⟨g.config.mergedFile, .sdl,
        merge (compositions.map Composition.fragment) g.config.idScalar⟩]

/-- The resolver file of a model. -/
def resolverFile (g : Generator) (model : Model) : Except Fault OutputFile := do
  let resolvers ← g.resolvers model
  return ⟨resolverPath g.config resolvers.model, .resolvers, resolvers.text⟩

/-- The resolver files of a run, without the documents. -/
def resolverDocuments (g : Generator) (schema : Schema) : Except Fault (List OutputFile) :=
  ((g.models schema).filter g.emitsResolvers).mapM g.resolverFile

theorem warnings_of_generate (h : g.generate schema = .ok project) :
    project.warnings = g.warnings schema := by
  obtain ⟨_, -, h⟩ := bind_eq_ok_iff.mp h
  obtain ⟨outputs, -, h⟩ := bind_eq_ok_iff.mp h
  cases h
  rfl

theorem documents_of_generate (h : g.generate schema = .ok project) :
    g.documents schema = .ok (project.filesOf .sdl) := by
  obtain ⟨-, outputs, houtputs, hfiles⟩ := outputs_of_generate h
  have hcompositions : (g.models schema).mapM g.compose =
      .ok (outputs.map ModelOutput.composition) :=
    mapM_eq_ok_iff.mpr (List.forall₂_map_right_iff.mpr
      (houtputs.imp fun _ _ => composition_of_modelOutput))
  refine bind_eq_ok_iff.mpr ⟨_, hcompositions, congrArg Except.ok ?_⟩
  simp only [Project.filesOf, hfiles, List.map_map]
  cases g.config.mode with
  | perModel => exact (filter_perModelFiles outputs).symm
  | merged => exact (filter_mergedFiles outputs).symm

/-- A model that gets a resolver file gives that one, and another gives none. -/
theorem resolverFiles_of_modelOutput {output : ModelOutput}
    (h : g.modelOutput model = .ok output) :
    if g.emitsResolvers model then
      ∃ file, g.resolverFile model = .ok file ∧ g.resolverFiles output = [file]
    else g.resolverFiles output = [] := by
  obtain ⟨composition, -, h⟩ := bind_eq_ok_iff.mp h
  split at h
  · rename_i hemits
    obtain ⟨resolvers, hresolvers, h⟩ := bind_eq_ok_iff.mp h
    cases h
    rw [if_pos hemits]
    exact ⟨_, bind_eq_ok_iff.mpr ⟨resolvers, hresolvers, rfl⟩, rfl⟩
  · rename_i hemits
    cases h
    rw [if_neg hemits]
    rfl

/-- What a run lists in either mode besides its documents. -/
theorem filter_resolvers (outputs : List ModelOutput) :
    (g.perModelFiles outputs).filter (·.kind == .resolvers) = outputs.flatMap g.resolverFiles ∧
    (g.mergedFiles outputs).filter (·.kind == .resolvers) = outputs.flatMap g.resolverFiles := by
  have hown : ∀ output, (g.resolverFiles output).filter (·.kind == .resolvers) =
      g.resolverFiles output := fun output => List.filter_eq_self.mpr fun file hfile => by
    obtain ⟨resolvers, -, rfl⟩ := List.mem_map.mp hfile
    rfl
  refine ⟨?_, ?_⟩
  · rw [perModelFiles, List.filter_flatMap]
    refine List.flatMap_congr fun output _ => ?_
    rw [List.filter_cons_of_neg (by simp), hown]
  · rw [mergedFiles, List.filter_cons_of_neg (by simp), List.filter_flatMap]
    exact List.flatMap_congr fun output _ => hown output

/-- The resolver files of models are those of the models that get one. -/
theorem forall₂_resolverFile {models : List Model} {outputs : List ModelOutput}
    (h : List.Forall₂ (fun model output => g.modelOutput model = .ok output) models outputs) :
    List.Forall₂ (fun model file => g.resolverFile model = .ok file)
      (models.filter g.emitsResolvers) (outputs.flatMap g.resolverFiles) := by
  induction h with
  | nil => exact .nil
  | @cons model output models outputs houtput _ ih =>
    have hgives := resolverFiles_of_modelOutput houtput
    rw [List.filter_cons, List.flatMap_cons]
    split at hgives
    · rename_i hemits
      obtain ⟨file, hfile, hlisted⟩ := hgives
      rw [if_pos hemits, hlisted]
      exact .cons hfile ih
    · rename_i hemits
      rw [if_neg hemits, hgives]
      exact ih

theorem resolverDocuments_of_generate (h : g.generate schema = .ok project) :
    g.resolverDocuments schema = .ok (project.filesOf .resolvers) := by
  obtain ⟨-, outputs, houtputs, hfiles⟩ := outputs_of_generate h
  have hlisted : project.filesOf .resolvers = outputs.flatMap g.resolverFiles := by
    rw [Project.filesOf, hfiles]
    cases g.config.mode with
    | perModel => exact (filter_resolvers outputs).1
    | merged => exact (filter_resolvers outputs).2
  rw [hlisted]
  exact mapM_eq_ok_iff.mpr (forall₂_resolverFile houtputs)

/-! ### What they are made from

Both sides come down to the same computation, since no setting but those kept is read. -/

variable {left right : Config} {hooks : Hooks}

theorem warnings_defaults (config : Config) (hooks : Hooks) (schema : Schema) :
    warnings ⟨config, hooks⟩ schema = warnings ⟨{}, hooks⟩ schema := rfl

theorem documents_forDocuments (config : Config) (hooks : Hooks) (schema : Schema) :
    documents ⟨config.forDocuments, hooks⟩ schema = documents ⟨config, hooks⟩ schema := rfl

theorem resolverDocuments_forResolvers (config : Config) (hooks : Hooks) (schema : Schema) :
    resolverDocuments ⟨config.forResolvers, hooks⟩ schema =
      resolverDocuments ⟨config, hooks⟩ schema := rfl

/-- **Settings keep to their output.**  Two runs over a schema with the same hooks give the
same warnings, whatever their settings.  If they agree on the settings for documents, they
give the same documents, and if they agree on those for resolver files, the same resolver
files, in path, content and order. -/
theorem filesOf_eq_of_agree {first second : Project}
    (hfirst : generate ⟨left, hooks⟩ schema = .ok first)
    (hsecond : generate ⟨right, hooks⟩ schema = .ok second) :
    first.warnings = second.warnings ∧
    (left.AgreeOnDocuments right → first.filesOf .sdl = second.filesOf .sdl) ∧
    (left.AgreeOnResolvers right → first.filesOf .resolvers = second.filesOf .resolvers) := by
  refine ⟨?_, fun hagree => ?_, fun hagree => ?_⟩
  · rw [warnings_of_generate hfirst, warnings_of_generate hsecond, warnings_defaults left,
      warnings_defaults right]
  · have hdocuments := documents_of_generate hfirst
    rw [← documents_forDocuments, hagree.forDocuments_eq, documents_forDocuments,
      documents_of_generate hsecond] at hdocuments
    exact (Except.ok.inj hdocuments).symm
  · have hresolvers := resolverDocuments_of_generate hfirst
    rw [← resolverDocuments_forResolvers, hagree.forResolvers_eq, resolverDocuments_forResolvers,
      resolverDocuments_of_generate hsecond] at hresolvers
    exact (Except.ok.inj hresolvers).symm

/-- Settings with the resolver that a run over the hotel needs. -/
def staffed : Config where
  relationResolvers := [(memberKey "Stay" "guest", "stay => stay.guest")]

/-- Settings without resolver files. -/
def silent : Config where
  emitResolvers := false

/-- Settings for the same resolver files beside a single document without filters. -/
def condensed : Config :=
  { staffed with mode := .merged, idScalar := .uuid, filters := false }

/-- The first two give one set of documents, and the first and the last one set of resolver
files. -/
theorem filesOf_eq_of_agree_hotel :
    staffed.AgreeOnDocuments silent ∧ staffed.AgreeOnResolvers condensed ∧
    ∃ first second third, generate ⟨staffed, {}⟩ hotel = .ok first ∧
      generate ⟨silent, {}⟩ hotel = .ok second ∧ generate ⟨condensed, {}⟩ hotel = .ok third ∧
      first.warnings = second.warnings ∧ first.filesOf .sdl = second.filesOf .sdl ∧
      first.filesOf .resolvers = third.filesOf .resolvers := by
  have hdocuments : staffed.AgreeOnDocuments silent := ⟨rfl, rfl, rfl, rfl, rfl, rfl⟩
  have hresolvers : staffed.AgreeOnResolvers condensed := ⟨rfl, rfl, rfl, rfl, rfl⟩
  obtain ⟨first, hfirst⟩ : ∃ project, generate ⟨staffed, {}⟩ hotel = .ok project := ⟨_, rfl⟩
  obtain ⟨second, hsecond⟩ : ∃ project, generate ⟨silent, {}⟩ hotel = .ok project := ⟨_, rfl⟩
  obtain ⟨third, hthird⟩ : ∃ project, generate ⟨condensed, {}⟩ hotel = .ok project := ⟨_, rfl⟩
  obtain ⟨hwarnings, hsdl, -⟩ := filesOf_eq_of_agree hfirst hsecond
  obtain ⟨-, -, hfiles⟩ := filesOf_eq_of_agree hfirst hthird
  exact ⟨hdocuments, hresolvers, first, second, third, hfirst, hsecond, hthird, hwarnings,
    hsdl hdocuments, hfiles hresolvers⟩

end Generator
end Generate
end EntitySdl
