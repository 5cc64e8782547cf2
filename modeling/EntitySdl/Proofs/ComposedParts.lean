import EntitySdl.Generate.Composition
import EntitySdl.Proofs.WellFormed

/-! # The parts of a composed model

What the composition of a model consists of, when there is one: each part by
the members of the model that it comes from.
-/
namespace EntitySdl
namespace Generate

open Sdl

namespace Generator

variable {g : Generator} {model : Model}

/-- A field comes from a property that takes part. -/
structure IsPropertyField (g : Generator) (model : Model) (property : Property)
    (field : FieldLine) : Prop where
  /-- It has the name of the property. -/
  name : field.name = property.name
  /-- It takes no arguments. -/
  arguments : field.arguments = []
  /-- It has the type of the property. -/
  type : sdlType g.config.idScalar .output property.type = .ok field.type
  /-- It has the directive for its name. -/
  directive : field.directive = g.fieldDirective model property.name

theorem isPropertyField_of_propertyField {property : Property} {field : FieldLine}
    (h : g.propertyField model property = .ok field) : IsPropertyField g model property field := by
  obtain ⟨type, htype, h⟩ := bind_eq_ok_iff.mp h
  cases h
  exact ⟨rfl, rfl, mapError_eq_ok_iff.mp htype, rfl⟩

/-- The fields of properties and then those of relations make up the object. -/
theorem objectType_eq_ok {object : Block} (h : g.objectType model = .ok object) :
    object.kind = .type ∧ object.name = model.name ∧
      ∃ fields, List.Forall₂ (IsPropertyField g model) (g.properties model) fields ∧
        object.fields = fields ++ (g.relations model).map (g.relationField model) := by
  obtain ⟨fields, hfields, h⟩ := bind_eq_ok_iff.mp h
  cases h
  refine ⟨rfl, rfl, fields, ?_, rfl⟩
  exact (mapM_eq_ok_iff.mp hfields).imp fun _ _ => isPropertyField_of_propertyField

/-- A field comes from an argument. -/
structure IsArgumentField (g : Generator) (argument : Property) (field : FieldLine) : Prop where
  /-- It has the name of the argument. -/
  name : field.name = argument.name
  /-- It takes no arguments. -/
  arguments : field.arguments = []
  /-- It has the type of the argument. -/
  type : sdlType g.config.idScalar .input argument.type = .ok field.type
  /-- It has no directive. -/
  directive : field.directive = none

theorem isArgumentField_of_argumentField {operation : Operation} {argument : Property}
    {field : FieldLine} (h : g.argumentField model operation argument = .ok field) :
    IsArgumentField g argument field := by
  obtain ⟨type, htype, h⟩ := bind_eq_ok_iff.mp h
  cases h
  exact ⟨rfl, rfl, mapError_eq_ok_iff.mp htype, rfl⟩

/-- The input of an operation has a field for each argument, and there is one if
there are arguments. -/
theorem operationInput_eq_ok {operation : Operation} {input : Option Block}
    (h : g.operationInput model operation = .ok input) :
    input.isSome = !operation.arguments.isEmpty ∧
      ∀ block ∈ input, block.kind = .input ∧ block.name = Naming.argsType operation.name ∧
        List.Forall₂ (IsArgumentField g) operation.arguments block.fields := by
  unfold operationInput at h
  split at h
  · rename_i hnil
    cases h
    simp [hnil]
  · rename_i hne
    obtain ⟨fields, hfields, h⟩ := bind_eq_ok_iff.mp h
    cases h
    refine ⟨?_, ?_⟩
    · cases harguments : operation.arguments with
      | nil => exact absurd harguments hne
      | cons => rfl
    · intro block hblock
      cases hblock
      exact ⟨rfl, rfl, (mapM_eq_ok_iff.mp hfields).imp fun _ _ => isArgumentField_of_argumentField⟩

/-- Such an input has a name and fields, since there are arguments. -/
theorem operationInput_eq_some {operation : Operation} {block : Block}
    (h : g.operationInput model operation = .ok (some block)) :
    block.kind = .input ∧ block.name = Naming.argsType operation.name ∧
      operation.arguments ≠ [] ∧
        List.Forall₂ (IsArgumentField g) operation.arguments block.fields := by
  obtain ⟨hsome, hblock⟩ := operationInput_eq_ok h
  obtain ⟨hkind, hname, hfields⟩ := hblock block rfl
  refine ⟨hkind, hname, ?_, hfields⟩
  intro hnil
  rw [hnil] at hsome
  cases hsome

/-- There are inputs for the operations with arguments, called after them. -/
theorem operationInputs_name {operations : List Operation} {inputs : List (Option Block)}
    (h : List.Forall₂ (fun operation input => g.operationInput model operation = .ok input)
      operations inputs) :
    (inputs.filterMap id).map Block.name =
      (operations.filter fun operation => !operation.arguments.isEmpty).map fun operation =>
        Naming.argsType operation.name := by
  induction h with
  | nil => rfl
  | @cons operation input operations inputs hinput _ ih =>
    obtain ⟨hsome, hblock⟩ := operationInput_eq_ok hinput
    cases input with
    | none =>
      rw [List.filter_cons_of_neg (by simp [← hsome])]
      simpa using ih
    | some block =>
      rw [List.filter_cons_of_pos (by simp [← hsome])]
      obtain ⟨-, hname, -⟩ := hblock block rfl
      rw [List.filterMap_cons_some (show id (some block) = some block from rfl), List.map_cons,
        List.map_cons, hname, ih]

/-- A field is the mutation of an operation. -/
structure IsMutation (g : Generator) (operation : Operation) (field : FieldLine) : Prop where
  /-- It has the name of the operation. -/
  name : field.name = operation.name
  /-- It takes the input with the arguments, if there are any. -/
  arguments : field.arguments = match operation.arguments with
    | [] => []
    | _ => [("data", .named (Naming.argsType operation.name) true)]
  /-- It has the type of the result, which may always be null. -/
  type : ∃ type, sdlType g.config.idScalar .output operation.returns = .ok type ∧
    field.type = type.optional
  /-- It has no directive. -/
  directive : field.directive = none

theorem isMutation_of_mutationField {operation : Operation} {field : FieldLine}
    (h : g.mutationField model operation = .ok field) : IsMutation g operation field := by
  obtain ⟨type, htype, h⟩ := bind_eq_ok_iff.mp h
  cases h
  obtain ⟨full, hfull, rfl⟩ := map_eq_ok_iff.mp (mapError_eq_ok_iff.mp htype)
  exact ⟨rfl, rfl, ⟨full, hfull, rfl⟩, rfl⟩

/-- Mutations have the names of their operations. -/
theorem map_name_of_forall₂ {operations : List Operation} {fields : List FieldLine}
    (h : List.Forall₂ (IsMutation g) operations fields) :
    fields.map FieldLine.name = operations.map Operation.name :=
  map_eq_of_forall₂ (h.imp fun _ _ hfield => hfield.name)

theorem lookupFields_name : (g.lookupFields model).map FieldLine.name = g.lookupNames model := by
  unfold lookupFields lookupNames
  cases g.identifiers model with
  | nil => rfl
  | cons identifier rest =>
    cases g.config.lookup with
    | uniqueFilter => rfl
    | perIdentifier =>
      simp only [List.map_map]
      rfl

/-- The queries have the names that are listed for the model. -/
theorem queryFields_name (withFilter : Bool) :
    (g.queryFields model withFilter).map FieldLine.name = g.queryNames model := by
  simp only [queryFields, queryNames, List.map_cons, lookupFields_name]

theorem filterInput_eq_some {block : Block} (h : g.filterInput model = some block) :
    block.kind = .input ∧ block.name = Naming.filterType model.name ∧ block.fields ≠ [] := by
  unfold filterInput at h
  split at h
  · cases h
  · cases h
    exact ⟨rfl, rfl, by simp⟩

theorem uniqueFilterInput_eq_some {block : Block}
    (h : g.uniqueFilterInput model = some block) :
    block.kind = .input ∧ block.name = Naming.uniqueFilterType model.name ∧
      block.fields ≠ [] := by
  unfold uniqueFilterInput at h
  split at h
  · cases h
  · rename_i hne
    cases h
    exact ⟨rfl, rfl, by simpa using hne⟩

/-- What the composition of a model consists of. -/
structure IsComposition (g : Generator) (model : Model) (c : Composition) : Prop where
  /-- The model is well formed. -/
  wellFormed : model.WellFormed
  /-- The composition has its name. -/
  name : c.name = model.name
  /-- The object type has the fields of the members. -/
  object : g.objectType model = .ok c.object
  /-- There is an input for each operation with arguments. -/
  operationInputs : ∃ inputs, List.Forall₂ (fun operation input =>
      g.operationInput model operation = .ok input) (g.operations model) inputs ∧
    c.operationInputs = inputs.filterMap id
  /-- The type of the count. -/
  count : c.count = countType model
  /-- The filter, if filters are wanted. -/
  filter : c.filter = if g.config.filters then g.filterInput model else none
  /-- The filter for a single record, if such filters are wanted. -/
  uniqueFilter : c.uniqueFilter = match g.config.lookup with
    | .uniqueFilter => g.uniqueFilterInput model
    | .perIdentifier => none
  /-- The queries. -/
  queries : c.queries = g.queryFields model c.filter.isSome
  /-- There is a mutation for each operation. -/
  mutations : List.Forall₂ (IsMutation g) (g.operations model) c.mutations

theorem isComposition_of_compose {c : Composition} (h : g.compose model = .ok c) :
    IsComposition g model c := by
  obtain ⟨_, hcheck, h⟩ := bind_eq_ok_iff.mp h
  obtain ⟨object, hobject, h⟩ := bind_eq_ok_iff.mp h
  obtain ⟨inputs, hinputs, h⟩ := bind_eq_ok_iff.mp h
  obtain ⟨mutations, hmutations, h⟩ := bind_eq_ok_iff.mp h
  cases h
  exact
    { wellFormed := Model.wellFormed_of_check hcheck
      name := rfl
      object := hobject
      operationInputs := ⟨inputs, mapM_eq_ok_iff.mp hinputs, rfl⟩
      count := rfl
      filter := rfl
      uniqueFilter := rfl
      queries := rfl
      mutations := (mapM_eq_ok_iff.mp hmutations).imp fun _ _ => isMutation_of_mutationField }

/-- What holds of the input that an operation may have holds of those of all operations. -/
theorem IsComposition.forall_operationInputs {c : Composition} (h : IsComposition g model c)
    {holds : Block → Prop} (operationInput : ∀ operation ∈ g.operations model, ∀ block,
      g.operationInput model operation = .ok (some block) → holds block) :
    ∀ block ∈ c.operationInputs, holds block := by
  obtain ⟨inputs, hinputs, heq⟩ := h.operationInputs
  intro block hblock
  rw [heq] at hblock
  obtain ⟨input, hinput, hsome⟩ := List.mem_filterMap.mp hblock
  cases hsome
  exact forall_of_forall₂ hinputs (p := fun input => ∀ block, input = some block → holds block)
    (fun operation hoperation input h block hsome =>
      operationInput operation hoperation block (hsome ▸ h)) _ hinput block rfl

/-- **The blocks of a composition, one by one.**  What holds of each part that a model may
have holds of every type and input of its composition. -/
theorem IsComposition.forall_blocks {c : Composition} (h : IsComposition g model c)
    {holds : Block → Prop} (object : ∀ block, g.objectType model = .ok block → holds block)
    (operationInput : ∀ operation ∈ g.operations model, ∀ block,
      g.operationInput model operation = .ok (some block) → holds block)
    (count : holds (countType model))
    (filter : ∀ block, g.filterInput model = some block → holds block)
    (uniqueFilter : ∀ block, g.uniqueFilterInput model = some block → holds block) :
    ∀ block ∈ c.blocks, holds block := by
  have hfilter : ∀ block ∈ c.filter.toList, holds block := by
    intro block hblock
    rw [Option.mem_toList, h.filter] at hblock
    split at hblock
    · exact filter block hblock
    · cases hblock
  have hunique : ∀ block ∈ c.uniqueFilter.toList, holds block := by
    intro block hblock
    rw [Option.mem_toList, h.uniqueFilter] at hblock
    split at hblock
    · exact uniqueFilter block hblock
    · cases hblock
  simp only [Composition.blocks, List.cons_append, List.forall_mem_cons, List.forall_mem_append]
  refine ⟨object c.object h.object, h.forall_operationInputs operationInput, ?_, hfilter,
    hunique⟩
  rw [h.count]
  exact count

end Generator
end Generate
end EntitySdl
