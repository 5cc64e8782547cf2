import EntitySdl.Generate.Project
import EntitySdl.Proofs.GeneratedSdl

/-! # Merging the output of single models

A run can write a document for each model or one for all of them.  When the
documents of the models are split and merged, the one document for all of them
comes out, character by character.
-/
namespace EntitySdl
namespace Generate

open Sdl

/-- The document of a model. -/
def ModelOutput.document (output : ModelOutput) : OutputFile :=
  ⟨output.composition.name ++ ".graphql", .sdl, output.composition.fragment.render⟩

/-- Two fragments differ in nothing but their names. -/
def SameSections (fragment other : Fragment) : Prop :=
  fragment.definitions = other.definitions ∧ fragment.queryFields = other.queryFields ∧
    fragment.mutationFields = other.mutationFields

/-- Related elements that contribute the same give the same list in all. -/
theorem flatMap_eq_of_forall₂ {α β γ : Type} {R : α → β → Prop} {left : List α} {right : List β}
    {f : α → List γ} {f' : β → List γ} (h : List.Forall₂ R left right)
    (hf : ∀ {a : α} {b : β}, R a b → f a = f' b) : left.flatMap f = right.flatMap f' := by
  induction h with
  | nil => rfl
  | cons hfirst _ ih => rw [List.flatMap_cons, List.flatMap_cons, hf hfirst, ih]

namespace Generator

variable {g : Generator}

/-- A generator with another mode of output. -/
def withMode (g : Generator) (mode : OutputMode) : Generator :=
  { g with config := { g.config with mode := mode } }

/-- A merged document does not depend on the names of its fragments. -/
theorem merge_congr {fragments others : List Fragment} (idScalar : IdScalar)
    (h : List.Forall₂ SameSections fragments others) :
    merge fragments idScalar = merge others idScalar := by
  unfold merge
  rw [flatMap_eq_of_forall₂ h fun h => h.1, flatMap_eq_of_forall₂ h fun h => h.2.1,
    flatMap_eq_of_forall₂ h fun h => h.2.2]

/-- Resolver files are no documents. -/
theorem filter_resolverFiles (output : ModelOutput) :
    (g.resolverFiles output).filter (·.kind == .sdl) = [] := by
  rw [List.filter_eq_nil_iff]
  intro file hfile
  obtain ⟨resolvers, -, rfl⟩ := List.mem_map.mp hfile
  simp

theorem filter_perModelFiles (outputs : List ModelOutput) :
    (g.perModelFiles outputs).filter (·.kind == .sdl) = outputs.map ModelOutput.document := by
  induction outputs with
  | nil => rfl
  | cons output rest ih =>
    have := filter_resolverFiles (g := g) output
    simp only [perModelFiles, List.flatMap_cons, List.cons_append] at ih ⊢
    rw [List.filter_cons_of_pos (by simp), List.filter_append, this, ih]
    rfl

theorem filter_mergedFiles (outputs : List ModelOutput) :
    (g.mergedFiles outputs).filter (·.kind == .sdl) = [⟨g.config.mergedFile, .sdl,
      merge (outputs.map (·.composition.fragment)) g.config.idScalar⟩] := by
  have : (outputs.flatMap g.resolverFiles).filter (·.kind == .sdl) = [] := by
    rw [List.filter_flatMap]
    exact List.flatMap_eq_nil_iff.mpr fun output _ => filter_resolverFiles output
  rw [mergedFiles, List.filter_cons_of_pos (by simp), this]

theorem composition_of_modelOutput {model : Model} {output : ModelOutput}
    (h : g.modelOutput model = .ok output) : g.compose model = .ok output.composition := by
  obtain ⟨c, hc, h⟩ := bind_eq_ok_iff.mp h
  split at h
  · obtain ⟨resolvers, -, h⟩ := bind_eq_ok_iff.mp h
    cases h
    exact hc
  · cases h
    exact hc

/-- What a run generates for its models does not depend on the mode. -/
theorem generate_withMode {schema : Schema} {project : Project}
    (h : g.generate schema = .ok project) :
    ∃ outputs, List.Forall₂ (fun model output => g.compose model = .ok output.composition)
        (g.models schema) outputs ∧
      ∀ mode, (g.withMode mode).generate schema = .ok
        { files := match mode with
            | .perModel => g.perModelFiles outputs
            | .merged => g.mergedFiles outputs
          warnings := g.warnings schema } := by
  obtain ⟨_, hcheck, h⟩ := bind_eq_ok_iff.mp h
  obtain ⟨outputs, houtputs, -⟩ := bind_eq_ok_iff.mp h
  refine ⟨outputs, ?_, fun mode => ?_⟩
  · exact (mapM_eq_ok_iff.mp houtputs).imp fun _ _ => composition_of_modelOutput
  · have houtputs' : ((g.withMode mode).models schema).mapM (g.withMode mode).modelOutput =
        .ok outputs := houtputs
    exact bind_eq_ok_iff.mpr ⟨(), hcheck, bind_eq_ok_iff.mpr ⟨outputs, houtputs', rfl⟩⟩

/-- In the mode with one document for all models, this is what their fragments are
merged into. -/
theorem document_of_merged {schema : Schema} {project : Project}
    (hmode : g.config.mode = .merged) (h : g.generate schema = .ok project) :
    ∃ compositions, List.Forall₂ (fun model c => g.compose model = .ok c) (g.models schema)
        compositions ∧
      project.filesOf .sdl = [⟨g.config.mergedFile, .sdl,
        merge (compositions.map Composition.fragment) g.config.idScalar⟩] := by
  obtain ⟨outputs, houtputs, hfiles⟩ := generate_withMode h
  have hself : g.withMode .merged = g := by rw [← hmode, withMode]
  have hproject := hfiles .merged
  rw [hself, h] at hproject
  cases hproject
  refine ⟨outputs.map ModelOutput.composition, List.forall₂_map_right_iff.mpr houtputs, ?_⟩
  rw [Project.filesOf, filter_mergedFiles, List.map_map]
  rfl

/-- The documents of models are split into what they were written from. -/
theorem parse_documents {models : List Model} {outputs : List ModelOutput}
    (h : List.Forall₂ (fun model output => g.compose model = .ok output.composition) models outputs)
    (hmodels : ∀ model ∈ models, g.IsSplittable model) (label : OutputFile → String) :
    ∃ fragments, (outputs.map ModelOutput.document).mapM
        (fun file => Fragment.parse (label file) file.content) = .ok fragments ∧
      List.Forall₂ SameSections fragments (outputs.map (·.composition.fragment)) := by
  induction h with
  | nil => exact ⟨[], rfl, .nil⟩
  | @cons model output models outputs houtput _ ih =>
    obtain ⟨hmodel, hmodels⟩ := List.forall_mem_cons.mp hmodels
    obtain ⟨fragments, hfragments, hsame⟩ := ih hmodels
    have hsections := areSections_fragment hmodel (isComposition_of_compose houtput)
    have hfragment := parse_render hsections (isEmpty_fragment _) (label output.document)
    refine ⟨{ output.composition.fragment with name := label output.document } :: fragments, ?_,
      .cons ⟨rfl, rfl, rfl⟩ hsame⟩
    rw [mapM_eq_ok_iff, List.map_cons] at *
    exact .cons hfragment hfragments

/-- **Splitting and merging.**  When a run succeeds and its models can be split again,
it succeeds with a document for each model and with one for all of them.  The former
are split into fragments, whatever these are called, and the latter is the document
that these fragments are merged into. -/
theorem merge_perModel {schema : Schema} {project : Project}
    (h : g.generate schema = .ok project)
    (hmodels : ∀ model ∈ g.models schema, g.IsSplittable model) (label : OutputFile → String) :
    ∃ split merged fragments, (g.withMode .perModel).generate schema = .ok split ∧
      (g.withMode .merged).generate schema = .ok merged ∧
      (split.filesOf .sdl).mapM (fun file => Fragment.parse (label file) file.content) =
        .ok fragments ∧
      merged.filesOf .sdl = [⟨g.config.mergedFile, .sdl, merge fragments g.config.idScalar⟩] := by
  obtain ⟨outputs, houtputs, hmode⟩ := generate_withMode h
  obtain ⟨fragments, hfragments, hsame⟩ := parse_documents houtputs hmodels label
  refine ⟨_, _, fragments, hmode .perModel, hmode .merged, ?_, ?_⟩
  · simp only [Project.filesOf]
    rw [filter_perModelFiles]
    exact hfragments
  · simp only [Project.filesOf]
    rw [filter_mergedFiles, merge_congr g.config.idScalar hsame]

/-- A schema with a model for each kind of member. -/
def hotel : Schema where
  models :=
    [{ name := "Guest"
       properties := [⟨"id", .scalar .uniqueIdentifier { isPrimaryKey := true }⟩,
         ⟨"stays", .array (.reference "Stay" {}) {}⟩] },
     { name := "Stay"
       relations := [{ name := "guest", model := "Guest" }]
       operations := [{ name := "extend", arguments := [⟨"nights", .scalar .integer {}⟩]
                        returns := .scalar .boolean {} }] }]

/-- A generator without resolver files. -/
def schemaOnly : Generator where
  config := { emitResolvers := false }

theorem isSplittable_hotel : ∀ model ∈ schemaOnly.models hotel, schemaOnly.IsSplittable model := by
  have hmodels : schemaOnly.models hotel = hotel.models := rfl
  rw [hmodels]
  simp only [hotel, List.forall_mem_cons, List.not_mem_nil, false_implies, implies_true, and_true]
  constructor
  · refine ⟨fun _ => rfl, .inl (by decide), by decide, ?_, ?_, ?_, by decide +kernel,
      by decide +kernel, by decide +kernel⟩
    all_goals simp [properties, operations, schemaOnly, PropertyType.IsNamed]
    decide
  · refine ⟨fun _ => rfl, .inr (by decide), by decide, ?_, ?_, ?_, by decide +kernel,
      by decide +kernel, by decide +kernel⟩
    all_goals simp [properties, operations, schemaOnly, PropertyType.IsNamed]

theorem merge_perModel_hotel : ∃ project, schemaOnly.generate hotel = .ok project ∧
    (∀ model ∈ schemaOnly.models hotel, schemaOnly.IsSplittable model) ∧
    ∃ split merged fragments, (schemaOnly.withMode .perModel).generate hotel = .ok split ∧
      (schemaOnly.withMode .merged).generate hotel = .ok merged ∧
      (split.filesOf .sdl).mapM (fun file => Fragment.parse file.path file.content) =
        .ok fragments ∧
      merged.filesOf .sdl = [⟨"schema.graphql", .sdl, merge fragments .id⟩] :=
  ⟨_, rfl, isSplittable_hotel, merge_perModel rfl isSplittable_hotel OutputFile.path⟩

end Generator
end Generate
end EntitySdl
