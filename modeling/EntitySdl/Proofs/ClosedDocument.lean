import EntitySdl.Proofs.GeneratedSdl
import EntitySdl.Proofs.MergedOutput
import EntitySdl.Proofs.Outcome

/-! # The types that a merged document uses

A merged document declares scalars and defines types and inputs.  Its fields and
their arguments use types by name.  In the document of a schema that refers to its
own models only, every name that is used is built in, declared or defined, except
for one family: an argument that refers to a model has the input type of that model,
which the generator leaves to its user.
-/
namespace EntitySdl

/-- The types of the members of a model. -/
def Model.types (model : Model) : List PropertyType :=
  model.properties.map Property.type ++ model.operations.flatMap fun operation =>
    operation.returns :: operation.arguments.map Property.type

/-- No type in a schema is a model of another schema, or a list of such models. -/
def Schema.ImportsNothing (schema : Schema) : Prop :=
  ∀ model ∈ schema.models, ∀ type ∈ model.types, ∀ name flags,
    type.innermost ≠ .imported name flags

theorem Model.exists_reference_of_type {model : Model} {type : PropertyType}
    (h : type ∈ model.types) {target : String} (htarget : target ∈ type.referencedModel?) :
    ∃ reference ∈ model.references, reference.target = target := by
  have huse : ∀ member : String, (⟨model.name, member, target⟩ : DanglingReference) ∈
      type.referencedModel?.toList.map fun target => ⟨model.name, member, target⟩ :=
    fun member => List.mem_map.mpr ⟨target, Option.mem_toList.mpr htarget, rfl⟩
  unfold Model.references
  rcases List.mem_append.mp h with h | h
  · obtain ⟨property, hproperty, rfl⟩ := List.mem_map.mp h
    refine ⟨⟨model.name, property.name, target⟩, ?_, rfl⟩
    refine List.mem_append_left _ (List.mem_append_right _ ?_)
    exact List.mem_flatMap.mpr ⟨property, hproperty, huse property.name⟩
  · obtain ⟨operation, hoperation, h⟩ := List.mem_flatMap.mp h
    rcases List.mem_cons.mp h with rfl | h
    · refine ⟨⟨model.name, operation.name, target⟩, ?_, rfl⟩
      refine List.mem_append_right _ (List.mem_flatMap.mpr ⟨operation, hoperation, ?_⟩)
      exact List.mem_append_right _ (huse operation.name)
    · obtain ⟨argument, hargument, rfl⟩ := List.mem_map.mp h
      refine ⟨⟨model.name, operation.name ++ "." ++ argument.name, target⟩, ?_, rfl⟩
      refine List.mem_append_right _ (List.mem_flatMap.mpr ⟨operation, hoperation, ?_⟩)
      exact List.mem_append_left _ (List.mem_flatMap.mpr ⟨argument, hargument, huse _⟩)

theorem Model.exists_reference_of_relation {model : Model} {relation : Relation}
    (h : relation ∈ model.relations) :
    ∃ reference ∈ model.references, reference.target = relation.model :=
  ⟨⟨model.name, relation.name, relation.model⟩,
    List.mem_append_left _ (List.mem_append_left _ (List.mem_map.mpr ⟨relation, h, rfl⟩)), rfl⟩

/-- Without dangling references, every use of a model is one of a model of the schema. -/
theorem Schema.exists_model_of_reference {schema : Schema} (h : schema.danglingReferences = [])
    {model : Model} (hmodel : model ∈ schema.models) {reference : DanglingReference}
    (href : reference ∈ model.references) :
    ∃ target ∈ schema.models, target.name = reference.target := by
  have hnot := List.filter_eq_nil_iff.mp h reference (List.mem_flatMap.mpr ⟨model, hmodel, href⟩)
  simpa using hnot

namespace Sdl

/-- The names of the types that a field uses. -/
def FieldLine.usedTypes (field : FieldLine) : List String :=
  field.type.innermost :: field.arguments.map fun argument => argument.2.innermost

theorem TypeRef.innermost_optional {ref : TypeRef} (h : ref.IsNamed) :
    ref.optional.innermost = ref.innermost := by
  cases ref with
  | list => rfl
  | named name required =>
    rw [Generate.optional_named h]
    rfl

/-- The scalars that every document may use. -/
def builtinTypes : List String := ["String", "Int", "Float", "Boolean", "ID"]

/-- The scalars that a merged document declares. -/
def declaredScalars : IdScalar → List String
  | .id => ["Date"]
  | .uuid => ["Date", "UUID"]

theorem builtinScalars_eq (idScalar : IdScalar) :
    builtinScalars idScalar = (declaredScalars idScalar).map fun name => "scalar " ++ name := by
  cases idScalar <;> decide

theorem not_isScalarDeclaration_text (block : Block) : isScalarDeclaration block.text = false := by
  rw [isScalarDeclaration, Block.text, renderBlock]
  simp only [String.toList_append]
  cases block.kind <;> rfl

end Sdl

namespace Generate

open Sdl

/-- The root type of a name, unless it has no fields. -/
def rootType (name : String) (fields : List FieldLine) : List Block :=
  if fields.isEmpty then [] else [{ kind := .type, name := name, fields := fields }]

/-- The types and inputs of the document that compositions are merged into. -/
def documentBlocks (compositions : List Composition) : List Block :=
  rootType "Query" (compositions.flatMap Composition.queries) ++
    rootType "Mutation" (compositions.flatMap Composition.mutations) ++
      compositions.flatMap Composition.blocks

theorem map_text_rootType (name : String) (fields : List FieldLine) :
    (rootType name fields).map Block.text = rootBlock name (fields.map FieldLine.text) := by
  cases fields <;> rfl

/-- The document consists of the scalars and the text of its blocks. -/
theorem merge_fragments (compositions : List Composition) (idScalar : IdScalar) :
    merge (compositions.map Composition.fragment) idScalar =
      joinBlocks ("\n".intercalate ((declaredScalars idScalar).map fun name => "scalar " ++ name) ::
        (documentBlocks compositions).map Block.text) := by
  have hdefinitions : (compositions.map Composition.fragment).flatMap Fragment.definitions =
      (compositions.flatMap Composition.blocks).map Block.text := by
    rw [List.flatMap_map, List.map_flatMap]
    rfl
  have hqueries : (compositions.map Composition.fragment).flatMap Fragment.queryFields =
      (compositions.flatMap Composition.queries).map FieldLine.text := by
    rw [List.flatMap_map, List.map_flatMap]
    rfl
  have hmutations : (compositions.map Composition.fragment).flatMap Fragment.mutationFields =
      (compositions.flatMap Composition.mutations).map FieldLine.text := by
    rw [List.flatMap_map, List.map_flatMap]
    rfl
  have hscalars : ∀ definition ∈ (compositions.flatMap Composition.blocks).map Block.text,
      isScalarDeclaration definition = false := by
    intro definition h
    obtain ⟨block, -, rfl⟩ := List.mem_map.mp h
    exact not_isScalarDeclaration_text block
  have hnone : ((compositions.flatMap Composition.blocks).map Block.text).filter
      isScalarDeclaration = [] :=
    List.filter_eq_nil_iff.mpr fun definition h => by simp [hscalars definition h]
  have hall : ((compositions.flatMap Composition.blocks).map Block.text).filter
      (!isScalarDeclaration ·) = (compositions.flatMap Composition.blocks).map Block.text :=
    List.filter_eq_self.mpr fun definition h => by simp [hscalars definition h]
  simp only [merge, hdefinitions, hqueries, hmutations, hnone, hall, addScalars, builtinScalars_eq,
    documentBlocks, List.map_append, map_text_rootType, List.append_assoc, List.cons_append,
    List.nil_append]

theorem modelType_output (idScalar : IdScalar) (name : String) :
    modelType idScalar .output name = name := rfl

theorem modelType_input (idScalar : IdScalar) (name : String) :
    modelType idScalar .input name = name ∨
      modelType idScalar .input name = Naming.inputType name := by
  unfold modelType
  split
  · exact .inr rfl
  · exact .inl rfl

/-- Without imports, a type comes down to a scalar or to the model that it refers to. -/
theorem innermost_sdlType {idScalar : IdScalar} {position : Position} {type : PropertyType}
    {ref : TypeRef} (h : sdlType idScalar position type = .ok ref)
    (himport : ∀ name flags, type.innermost ≠ .imported name flags) :
    (∃ kind : ScalarKind, ref.innermost = kind.sdlName idScalar) ∨
      ∃ target ∈ type.referencedModel?, ref.innermost = modelType idScalar position target := by
  induction type generalizing ref with
  | object => cases h
  | array member flags ih =>
    obtain ⟨inner, hinner, h⟩ := bind_eq_ok_iff.mp h
    cases h
    have hmember := ih hinner himport
    exact hmember
  | reference name flags =>
    cases h
    exact .inr ⟨name, rfl, rfl⟩
  | imported name flags => exact absurd rfl (himport name flags)
  | scalar kind flags =>
    cases h
    exact .inl ⟨kind, rfl⟩

/-- A type that refers to identifiers only, and not to other schemas, is named by them. -/
theorem isNamed_of_referencedModel {type : PropertyType}
    (himport : ∀ name flags, type.innermost ≠ .imported name flags)
    (htarget : ∀ target ∈ type.referencedModel?, Name.isIdentifier target) : type.IsNamed := by
  induction type with
  | object | scalar => trivial
  | array member flags ih => exact ih himport htarget
  | reference name flags => exact htarget name rfl
  | imported name flags => exact absurd rfl (himport name flags)

/-- The types that a field uses are known, and nothing is written behind them. -/
structure UsesOnly (known : String → Prop) (field : FieldLine) : Prop where
  types : ∀ name ∈ field.usedTypes, known name
  directive : field.directive = none

theorem UsesOnly.imp {known known' : String → Prop} {field : FieldLine}
    (h : UsesOnly known field) (himp : ∀ name, known name → known' name) : UsesOnly known' field :=
  ⟨fun name hname => himp name (h.types name hname), h.directive⟩

namespace Generator

variable {g : Generator} {model : Model} {c : Composition} {known : String → Prop}

/-- What is known covers the members of a model and the parts of its composition. -/
structure Covers (g : Generator) (model : Model) (c : Composition) (known : String → Prop) :
    Prop where
  /-- The scalars are known. -/
  scalars : ∀ kind : ScalarKind, known (kind.sdlName g.config.idScalar)
  /-- The types and inputs of the composition are known. -/
  blocks : ∀ block ∈ c.blocks, known block.name
  /-- The targets of relations are known. -/
  relations : ∀ relation ∈ model.relations, known relation.model
  /-- The models that types refer to are known, by names that are identifiers. -/
  types : ∀ type ∈ model.types, ∀ target ∈ type.referencedModel?,
    known target ∧ Name.isIdentifier target
  /-- No type is imported. -/
  imports : ∀ type ∈ model.types, ∀ name flags, type.innermost ≠ .imported name flags
  /-- No directives are supplied. -/
  directives : ∀ field, g.fieldDirective model field = none

theorem mem_types_of_property {property : Property} (h : property ∈ g.properties model) :
    property.type ∈ model.types :=
  List.mem_append_left _ (List.mem_map_of_mem (List.mem_filter.mp h).1)

theorem mem_types_of_result {operation : Operation} (h : operation ∈ g.operations model) :
    operation.returns ∈ model.types :=
  List.mem_append_right _ (List.mem_flatMap.mpr
    ⟨operation, (List.mem_filter.mp h).1, List.mem_cons_self⟩)

theorem mem_types_of_argument {operation : Operation} (h : operation ∈ g.operations model)
    {argument : Property} (hargument : argument ∈ operation.arguments) :
    argument.type ∈ model.types :=
  List.mem_append_right _ (List.mem_flatMap.mpr
    ⟨operation, (List.mem_filter.mp h).1, List.mem_cons_of_mem _ (List.mem_map_of_mem hargument)⟩)

/-- A type in output position is known. -/
theorem Covers.known_output (h : g.Covers model c known) {type : PropertyType}
    (htype : type ∈ model.types) {ref : TypeRef}
    (href : sdlType g.config.idScalar .output type = .ok ref) : known ref.innermost := by
  rcases innermost_sdlType href (h.imports type htype) with ⟨kind, hkind⟩ | ⟨target, hmem, hname⟩
  · rw [hkind]
    exact h.scalars kind
  · rw [hname, modelType_output]
    exact (h.types type htype target hmem).1

theorem usesOnly_object (h : g.Covers model c known) (hc : IsComposition g model c) :
    ∀ field ∈ c.object.fields, UsesOnly known field := by
  obtain ⟨-, -, fields, hproperties, hfields⟩ := objectType_eq_ok hc.object
  rw [hfields, List.forall_mem_append]
  constructor
  · refine forall_of_forall₂ hproperties fun property hproperty field hfield => ⟨?_, ?_⟩
    · rw [FieldLine.usedTypes, hfield.arguments, List.map_nil, List.forall_mem_singleton]
      exact h.known_output (mem_types_of_property hproperty) hfield.type
    · rw [hfield.directive, h.directives]
  · intro field hfield
    obtain ⟨relation, hrelation, rfl⟩ := List.mem_map.mp hfield
    refine ⟨?_, h.directives relation.name⟩
    have htarget := h.relations relation (List.mem_filter.mp hrelation).1
    rw [FieldLine.usedTypes, relationField, List.map_nil, List.forall_mem_singleton]
    unfold relationType
    split <;> exact htarget

theorem usesOnly_count (h : g.Covers model c known) (hc : IsComposition g model c) :
    ∀ field ∈ c.count.fields, UsesOnly known field := by
  rw [hc.count]
  intro field hfield
  cases List.mem_singleton.mp hfield
  refine ⟨?_, rfl⟩
  rw [FieldLine.usedTypes, List.map_nil, List.forall_mem_singleton]
  exact h.scalars .integer

theorem name_of_filterInput {block : Block} (h : g.filterInput model = some block) :
    block.name = Naming.filterType model.name := by
  unfold filterInput at h
  split at h <;> cases h
  rfl

theorem name_of_uniqueFilterInput {block : Block} (h : g.uniqueFilterInput model = some block) :
    block.name = Naming.uniqueFilterType model.name := by
  unfold uniqueFilterInput at h
  split at h <;> cases h
  rfl

theorem Covers.known_object (h : g.Covers model c known) (hc : IsComposition g model c) :
    known model.name := by
  obtain ⟨-, hname, -⟩ := objectType_eq_ok hc.object
  rw [← hname]
  exact h.blocks c.object List.mem_cons_self

theorem Covers.known_count (h : g.Covers model c known) (hc : IsComposition g model c) :
    known (Naming.metaType model.name) := by
  have hcount := h.blocks c.count (List.mem_append_right _ List.mem_cons_self)
  rwa [hc.count] at hcount

theorem Covers.known_filter (h : g.Covers model c known) (hc : IsComposition g model c)
    (hsome : c.filter.isSome) : known (Naming.filterType model.name) := by
  obtain ⟨block, hblock⟩ := Option.isSome_iff_exists.mp hsome
  have hknown := h.blocks block (List.mem_append_right _ (List.mem_cons_of_mem _
    (List.mem_append_left _ (Option.mem_toList.mpr hblock))))
  rw [hc.filter] at hblock
  split at hblock
  · rwa [name_of_filterInput hblock] at hknown
  · cases hblock

theorem Covers.known_uniqueFilter (h : g.Covers model c known) (hc : IsComposition g model c)
    (hlookup : g.config.lookup = .uniqueFilter) (hne : g.identifiers model ≠ []) :
    known (Naming.uniqueFilterType model.name) := by
  have hfilter := hc.uniqueFilter
  rw [hlookup] at hfilter
  obtain ⟨block, hblock⟩ : ∃ block, g.uniqueFilterInput model = some block := by
    unfold uniqueFilterInput
    split
    · rename_i hnil
      exact absurd hnil hne
    · exact ⟨_, rfl⟩
  rw [hblock] at hfilter
  have hknown := h.blocks block (List.mem_append_right _ (List.mem_cons_of_mem _
    (List.mem_append_right _ (Option.mem_toList.mpr hfilter))))
  rwa [name_of_uniqueFilterInput hblock] at hknown

theorem usesOnly_filter (h : g.Covers model c known) (hc : IsComposition g model c) :
    ∀ block ∈ c.filter, ∀ field ∈ block.fields, UsesOnly known field := by
  intro block hblock
  have hname := h.known_filter hc (Option.isSome_of_mem hblock)
  rw [hc.filter] at hblock
  split at hblock
  · unfold filterInput at hblock
    split at hblock
    · cases hblock
    · cases hblock
      have hcombined : ∀ name : String, UsesOnly known
          { name := name, type := .list (.named (Naming.filterType model.name) true) false } :=
        fun name => ⟨List.forall_mem_singleton.mpr hname, rfl⟩
      refine List.forall_mem_cons.mpr ⟨hcombined "or", List.forall_mem_cons.mpr
        ⟨hcombined "and", fun field hfield => ?_⟩⟩
      obtain ⟨property, -, hfield⟩ := List.mem_flatMap.mp hfield
      split at hfield
      · cases hfield
      · rename_i kind hkind
        obtain ⟨operator, -, rfl⟩ := List.mem_map.mp hfield
        have hoperand : (operator.operand (kind.sdlName g.config.idScalar)).innermost =
            kind.sdlName g.config.idScalar := by
          cases operator <;> rfl
        refine ⟨List.forall_mem_singleton.mpr ?_, rfl⟩
        rw [hoperand]
        exact h.scalars kind
  · cases hblock

theorem usesOnly_uniqueFilter (h : g.Covers model c known) (hc : IsComposition g model c) :
    ∀ block ∈ c.uniqueFilter, ∀ field ∈ block.fields, UsesOnly known field := by
  intro block hblock
  rw [hc.uniqueFilter] at hblock
  split at hblock
  · unfold uniqueFilterInput at hblock
    split at hblock
    · cases hblock
    · cases hblock
      intro field hfield
      obtain ⟨identifier, -, rfl⟩ := List.mem_map.mp hfield
      refine ⟨?_, rfl⟩
      rw [FieldLine.usedTypes, List.map_nil, List.forall_mem_singleton]
      exact h.scalars identifier.2
  · cases hblock

theorem usesOnly_lookups (h : g.Covers model c known) (hc : IsComposition g model c) :
    ∀ field ∈ g.lookupFields model, UsesOnly known field := by
  intro field hfield
  unfold lookupFields at hfield
  split at hfield
  · cases hfield
  · rename_i hne
    split at hfield
    · rename_i hlookup
      rw [List.mem_singleton] at hfield
      subst hfield
      refine ⟨List.forall_mem_cons.mpr ⟨h.known_object hc, List.forall_mem_singleton.mpr ?_⟩, rfl⟩
      exact h.known_uniqueFilter hc hlookup hne
    · obtain ⟨identifier, -, rfl⟩ := List.mem_map.mp hfield
      refine ⟨List.forall_mem_cons.mpr ⟨h.known_object hc, List.forall_mem_singleton.mpr ?_⟩, rfl⟩
      exact h.scalars identifier.2

theorem usesOnly_queries (h : g.Covers model c known) (hc : IsComposition g model c) :
    ∀ field ∈ c.queries, UsesOnly known field := by
  have hint : known "Int" := h.scalars .integer
  have hfilter : ∀ argument ∈ filterArgument model c.filter.isSome,
      known argument.2.innermost := by
    cases hsome : c.filter.isSome with
    | false => simp [filterArgument]
    | true => exact List.forall_mem_singleton.mpr (h.known_filter hc hsome)
  rw [hc.queries]
  refine List.forall_mem_cons.mpr ⟨⟨?_, rfl⟩, List.forall_mem_cons.mpr ⟨⟨?_, rfl⟩, ?_⟩⟩
  · simp only [FieldLine.usedTypes, List.forall_mem_cons, List.forall_mem_map, List.cons_append,
      List.nil_append]
    exact ⟨h.known_object hc, hint, hint, hfilter⟩
  · simp only [FieldLine.usedTypes, List.forall_mem_cons, List.forall_mem_map]
    exact ⟨h.known_count hc, hfilter⟩
  · exact usesOnly_lookups h hc

/-- An operation with arguments has an input in the composition. -/
theorem exists_operationInput (hc : IsComposition g model c) {operation : Operation}
    (hoperation : operation ∈ g.operations model) (hne : operation.arguments ≠ []) :
    ∃ block ∈ c.operationInputs, block.name = Naming.argsType operation.name := by
  obtain ⟨inputs, hinputs, heq⟩ := hc.operationInputs
  have hname : Naming.argsType operation.name ∈ c.operationInputs.map Block.name := by
    rw [heq, operationInputs_name hinputs]
    refine List.mem_map.mpr ⟨operation, List.mem_filter.mpr ⟨hoperation, ?_⟩, rfl⟩
    simpa using hne
  exact List.mem_map.mp hname

theorem usesOnly_mutations (h : g.Covers model c known) (hc : IsComposition g model c) :
    ∀ field ∈ c.mutations, UsesOnly known field := by
  refine forall_of_forall₂ hc.mutations fun operation hoperation field hfield => ⟨?_, ?_⟩
  · have htypes := mem_types_of_result hoperation
    obtain ⟨type, htype, heq⟩ := hfield.type
    have hnamed : type.IsNamed := isNamed_sdlType (isNamed_of_referencedModel
      (h.imports _ htypes) fun target htarget => (h.types _ htypes target htarget).2) htype
    rw [FieldLine.usedTypes, heq, TypeRef.innermost_optional hnamed, hfield.arguments]
    refine List.forall_mem_cons.mpr ⟨h.known_output htypes htype, ?_⟩
    split
    · simp
    · rename_i hne
      obtain ⟨block, hblock, hname⟩ := exists_operationInput hc hoperation hne
      refine List.forall_mem_singleton.mpr ?_
      change known (Naming.argsType operation.name)
      rw [← hname]
      exact h.blocks block (List.mem_append_left _ (List.mem_cons_of_mem _ hblock))
  · exact hfield.directive

/-- A field of an input stands for an argument that refers to a model of the schema, and
the name is that of the input type of this model. -/
def IsModelArgument (schema : Schema) (block : Block) (field : FieldLine) (name : String) : Prop :=
  block.kind = .input ∧ ∃ model ∈ schema.models, ∃ operation ∈ model.operations,
    block.name = Naming.argsType operation.name ∧ ∃ argument ∈ operation.arguments,
      field.name = argument.name ∧ ∃ target ∈ schema.models,
        argument.type.referencedModel? = some target.name ∧ name = Naming.inputType target.name

/-- The inputs of operations use what is known, and input types of models. -/
theorem usesOnly_operationInputs {schema : Schema} (hmodel : model ∈ schema.models)
    (htargets : ∀ type ∈ model.types, ∀ name ∈ type.referencedModel?,
      ∃ target ∈ schema.models, target.name = name)
    (h : g.Covers model c known) (hc : IsComposition g model c) :
    ∀ block ∈ c.operationInputs, ∀ field ∈ block.fields,
      UsesOnly (fun name => known name ∨ IsModelArgument schema block field name) field := by
  refine hc.forall_operationInputs fun operation hoperation block hinput => ?_
  obtain ⟨hkind, hname, -, hfields⟩ := operationInput_eq_some hinput
  refine forall_of_forall₂ hfields fun argument hargument field hfield => ⟨?_, hfield.directive⟩
  rw [FieldLine.usedTypes, hfield.arguments, List.map_nil, List.forall_mem_singleton]
  have htype := mem_types_of_argument hoperation hargument
  rcases innermost_sdlType hfield.type (h.imports _ htype) with ⟨kind, heq⟩ | ⟨name, hmem, heq⟩
  · rw [heq]
    exact .inl (h.scalars kind)
  · rw [heq]
    rcases modelType_input g.config.idScalar name with hself | hinput
    · rw [hself]
      exact .inl (h.types _ htype name hmem).1
    · obtain ⟨target, htarget, rfl⟩ := htargets _ htype name hmem
      rw [hinput]
      exact .inr ⟨hkind, model, hmodel, operation, (List.mem_filter.mp hoperation).1, hname,
        argument, hargument, hfield.name, target, htarget, hmem, rfl⟩

/-- The parts of a composition use what is known, and input types of models. -/
theorem usesOnly_blocks {schema : Schema} (hmodel : model ∈ schema.models)
    (htargets : ∀ type ∈ model.types, ∀ name ∈ type.referencedModel?,
      ∃ target ∈ schema.models, target.name = name)
    (h : g.Covers model c known) (hc : IsComposition g model c) :
    ∀ block ∈ c.blocks, ∀ field ∈ block.fields,
      UsesOnly (fun name => known name ∨ IsModelArgument schema block field name) field := by
  have hknown : ∀ {block : Block}, (∀ field ∈ block.fields, UsesOnly known field) →
      ∀ field ∈ block.fields,
        UsesOnly (fun name => known name ∨ IsModelArgument schema block field name) field :=
    fun hfields field hfield => (hfields field hfield).imp fun _ => .inl
  rw [Composition.blocks, List.forall_mem_append, List.forall_mem_cons, List.forall_mem_cons,
    List.forall_mem_append]
  refine ⟨⟨hknown (usesOnly_object h hc), usesOnly_operationInputs hmodel htargets h hc⟩,
    hknown (usesOnly_count h hc), fun block hblock => ?_, fun block hblock => ?_⟩
  · exact hknown (usesOnly_filter h hc block (Option.mem_toList.mp hblock))
  · exact hknown (usesOnly_uniqueFilter h hc block (Option.mem_toList.mp hblock))

/-- A name may be used in a document: it is built in, declared or defined. -/
def IsKnown (idScalar : IdScalar) (compositions : List Composition) (name : String) : Prop :=
  name ∈ builtinTypes ∨ name ∈ declaredScalars idScalar ∨
    name ∈ (documentBlocks compositions).map Block.name

theorem isKnown_sdlName (idScalar : IdScalar) (compositions : List Composition)
    (kind : ScalarKind) : IsKnown idScalar compositions (kind.sdlName idScalar) := by
  have hscalar : kind.sdlName idScalar ∈ builtinTypes ∨
      kind.sdlName idScalar ∈ declaredScalars idScalar := by
    cases kind <;> cases idScalar <;> decide
  rcases hscalar with h | h
  · exact .inl h
  · exact .inr (.inl h)

theorem isKnown_of_mem {idScalar : IdScalar} {compositions : List Composition}
    (hc : c ∈ compositions) {block : Block} (hblock : block ∈ c.blocks) :
    IsKnown idScalar compositions block.name := by
  refine .inr (.inr (List.mem_map_of_mem (List.mem_append_right _ ?_)))
  exact List.mem_flatMap.mpr ⟨c, hc, hblock⟩

/-- What is known to a document covers its models, if they refer to no others. -/
theorem covers_of_compositions {schema : Schema} {compositions : List Composition}
    (hcompositions : List.Forall₂ (fun model c => g.compose model = .ok c) schema.models
      compositions)
    (hdirectives : ∀ model ∈ schema.models, ∀ field, g.fieldDirective model field = none)
    (hdangling : schema.danglingReferences = []) (himports : schema.ImportsNothing)
    (hmodel : model ∈ schema.models) (hc : c ∈ compositions) :
    g.Covers model c (IsKnown g.config.idScalar compositions) := by
  have hobject : ∀ target ∈ schema.models,
      IsKnown g.config.idScalar compositions target.name ∧ Name.isIdentifier target.name := by
    refine forall_of_forall₂ hcompositions.flip fun d hd target hcompose => ?_
    have hparts := isComposition_of_compose hcompose
    obtain ⟨-, hname, -⟩ := objectType_eq_ok hparts.object
    rw [← hname]
    exact ⟨isKnown_of_mem hd List.mem_cons_self, hname ▸ hparts.wellFormed.name⟩
  refine ⟨isKnown_sdlName _ _, fun block hblock => isKnown_of_mem hc hblock, ?_, ?_,
    himports model hmodel, hdirectives model hmodel⟩
  · intro relation hrelation
    obtain ⟨reference, href, heq⟩ := Model.exists_reference_of_relation hrelation
    obtain ⟨target, htarget, hname⟩ := Schema.exists_model_of_reference hdangling hmodel href
    rw [← heq, ← hname]
    exact (hobject target htarget).1
  · intro type htype name hname
    obtain ⟨reference, href, heq⟩ := Model.exists_reference_of_type htype hname
    obtain ⟨target, htarget, hname⟩ := Schema.exists_model_of_reference hdangling hmodel href
    rw [← heq, ← hname]
    exact hobject target htarget

/-- A root type uses what its fields use. -/
theorem usesOnly_rootType {known : String → Prop} {name : String} {fields : List FieldLine}
    (hfields : ∀ field ∈ fields, UsesOnly known field) :
    ∀ block ∈ rootType name fields, ∀ field ∈ block.fields, UsesOnly known field := by
  intro block hblock
  unfold rootType at hblock
  split at hblock
  · cases hblock
  · rw [List.mem_singleton] at hblock
    subst hblock
    exact hfields

/-- **The merged document is closed up to the input types of models.**  When a schema refers to
its own models only, every type that its merged document uses is built in, declared
or defined there, or is the input type that stands for a model in an argument. -/
theorem merged_closed {schema : Schema} {project : Project} (hhooks : g.hooks = {})
    (hdirectives : ∀ model ∈ schema.models, ∀ field, g.fieldDirective model field = none)
    (hmode : g.config.mode = .merged) (hdangling : schema.danglingReferences = [])
    (himports : schema.ImportsNothing) (h : g.generate schema = .ok project) :
    ∃ compositions, List.Forall₂ (fun model c => g.compose model = .ok c) schema.models
        compositions ∧
      project.filesOf .sdl = [⟨g.config.mergedFile, .sdl, joinBlocks
        ("\n".intercalate ((declaredScalars g.config.idScalar).map fun name => "scalar " ++ name) ::
          (documentBlocks compositions).map Block.text)⟩] ∧
      ∀ block ∈ documentBlocks compositions, ∀ field ∈ block.fields, UsesOnly (fun name =>
        IsKnown g.config.idScalar compositions name ∨ IsModelArgument schema block field name)
          field := by
  obtain ⟨compositions, hcompositions, hdocument⟩ := document_of_merged hmode h
  have hmodels : g.models schema = schema.models := by
    refine List.filter_eq_self.mpr fun model _ => ?_
    rw [emits, hhooks]
    rfl
  rw [hmodels] at hcompositions
  have htargets : ∀ model ∈ schema.models, ∀ type ∈ model.types, ∀ name ∈ type.referencedModel?,
      ∃ target ∈ schema.models, target.name = name := by
    intro model hmodel type htype name hname
    obtain ⟨reference, href, rfl⟩ := Model.exists_reference_of_type htype hname
    exact Schema.exists_model_of_reference hdangling hmodel href
  -- what a model contributes refers to known types, but for the arguments of its operations
  have hparts : ∀ c ∈ compositions, c ∈ compositions →
      (∀ field ∈ c.queries, UsesOnly (IsKnown g.config.idScalar compositions) field) ∧
      (∀ field ∈ c.mutations, UsesOnly (IsKnown g.config.idScalar compositions) field) ∧
      ∀ block ∈ c.blocks, ∀ field ∈ block.fields, UsesOnly (fun name =>
        IsKnown g.config.idScalar compositions name ∨ IsModelArgument schema block field name)
          field := by
    refine forall_of_forall₂ hcompositions fun model hmodel c hcompose hc => ?_
    have hcovers := covers_of_compositions hcompositions hdirectives hdangling himports hmodel hc
    have hcomposition := isComposition_of_compose hcompose
    exact ⟨usesOnly_queries hcovers hcomposition, usesOnly_mutations hcovers hcomposition,
      usesOnly_blocks hmodel (htargets model hmodel) hcovers hcomposition⟩
  refine ⟨compositions, hcompositions, by rw [hdocument, merge_fragments], ?_⟩
  have hqueries : ∀ field ∈ compositions.flatMap Composition.queries,
      UsesOnly (IsKnown g.config.idScalar compositions) field := fun field hfield => by
    obtain ⟨c, hc, hfield⟩ := List.mem_flatMap.mp hfield
    exact (hparts c hc hc).1 field hfield
  have hmutations : ∀ field ∈ compositions.flatMap Composition.mutations,
      UsesOnly (IsKnown g.config.idScalar compositions) field := fun field hfield => by
    obtain ⟨c, hc, hfield⟩ := List.mem_flatMap.mp hfield
    exact (hparts c hc hc).2.1 field hfield
  intro block hblock field hfield
  rw [documentBlocks, List.mem_append, List.mem_append] at hblock
  rcases hblock with (hblock | hblock) | hblock
  · exact (usesOnly_rootType hqueries block hblock field hfield).imp fun _ => .inl
  · exact (usesOnly_rootType hmutations block hblock field hfield).imp fun _ => .inl
  · obtain ⟨c, hc, hblock⟩ := List.mem_flatMap.mp hblock
    exact (hparts c hc hc).2.2 block hblock field hfield

/-- A schema with an argument that refers to a model. -/
def invitations : Schema where
  models :=
    [{ name := "Guest"
       properties := [⟨"id", .scalar .uniqueIdentifier { isPrimaryKey := true }⟩] },
     { name := "Stay"
       relations := [{ name := "guest", model := "Guest" }]
       operations := [{ name := "invite", arguments := [⟨"guest", .reference "Guest" {}⟩]
                        returns := .reference "Stay" {} }] }]

theorem importsNothing_invitations : invitations.ImportsNothing := by
  have hnames : ∀ model ∈ invitations.models, ∀ type ∈ model.types,
      type.innermost.typeName ≠ "ImportModel" := by decide
  intro model hmodel type htype name flags heq
  refine hnames model hmodel type htype ?_
  rw [heq]
  rfl

/-- The input type of the model is used, and the document does not define it. -/
theorem invitations_not_closed : ∃ project compositions,
    (schemaOnly.withMode .merged).generate invitations = .ok project ∧
      invitations.danglingReferences = [] ∧ invitations.ImportsNothing ∧
      List.Forall₂ (fun model c => (schemaOnly.withMode .merged).compose model = .ok c)
        invitations.models compositions ∧
      (∃ block ∈ documentBlocks compositions, ∃ field ∈ block.fields,
        "GuestInput" ∈ field.usedTypes) ∧
      ¬ IsKnown .id compositions "GuestInput" := by
  refine ⟨_, _, rfl, by decide, importsNothing_invitations, .cons rfl (.cons rfl .nil), ?_, ?_⟩
  · decide +kernel
  · unfold IsKnown
    decide +kernel

theorem merged_closed_invitations : ∃ project,
    (schemaOnly.withMode .merged).generate invitations = .ok project ∧
      (schemaOnly.withMode .merged).hooks = {} ∧
      (schemaOnly.withMode .merged).config.mode = .merged ∧
      invitations.danglingReferences = [] ∧ invitations.ImportsNothing ∧
      ∃ compositions, List.Forall₂ (fun model c =>
          (schemaOnly.withMode .merged).compose model = .ok c) invitations.models compositions ∧
        ∀ block ∈ documentBlocks compositions, ∀ field ∈ block.fields, UsesOnly (fun name =>
          IsKnown .id compositions name ∨ IsModelArgument invitations block field name) field := by
  obtain ⟨compositions, hcompositions, -, hclosed⟩ :=
    merged_closed (g := schemaOnly.withMode .merged) rfl (fun _ _ _ => rfl) rfl
      (show invitations.danglingReferences = [] by decide) importsNothing_invitations rfl
  exact ⟨_, rfl, rfl, rfl, by decide, importsNothing_invitations, compositions, hcompositions,
    hclosed⟩

end Generator
end Generate
end EntitySdl
