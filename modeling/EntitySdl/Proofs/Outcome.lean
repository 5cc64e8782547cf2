import EntitySdl.Generate.Project
import EntitySdl.Proofs.FirstFault
import EntitySdl.Proofs.WellFormed

/-! # When a run succeeds

A run of the generator fails for three reasons: the schema breaks a rule, a type
is or holds a free-form object, or a relation has no resolver.  The offences of a
model are listed in the order in which a run meets them, so that a run succeeds
when the schema is well formed and the list is empty, and otherwise fails with
the first of them.
-/
namespace EntitySdl

namespace PropertyType

/-- The type inside all lists. -/
def innermost : PropertyType → PropertyType
  | array member _ => member.innermost
  | type => type

/-- Whether a type is a free-form object, or a list of them at any depth. -/
def IsFreeForm (type : PropertyType) : Prop := ∃ flags, type.innermost = object flags

/-- Whether a type is free in its form is decided by the type inside all lists. -/
instance (type : PropertyType) : Decidable type.IsFreeForm :=
  match h : type.innermost with
  | object flags => isTrue ⟨flags, h⟩
  | array _ _ | reference _ _ | imported _ _ | scalar _ _ =>
    isFalse fun ⟨flags, hflags⟩ => by simp [h] at hflags

@[simp] theorem isFreeForm_array {member : PropertyType} {flags : Flags} :
    (array member flags).IsFreeForm ↔ member.IsFreeForm := Iff.rfl

end PropertyType

namespace Generate

/-- The faults of a type by itself. -/
def typeFaults (type : PropertyType) : List Fault :=
  if type.IsFreeForm then [.unsupportedType "Object"] else []

theorem typeFaults_eq_nil_iff {type : PropertyType} :
    typeFaults type = [] ↔ ¬ type.IsFreeForm := by
  simp [typeFaults]

theorem sdlType_reports (idScalar : IdScalar) (position : Position) (type : PropertyType) :
    Reports (sdlType idScalar position type) (typeFaults type) := by
  induction type with
  | object flags =>
    have hfree : (PropertyType.object flags).IsFreeForm := ⟨flags, rfl⟩
    rw [typeFaults, if_pos hfree]
    rfl
  | array member flags ih => exact ih.bind_pure _
  | reference name flags | imported name flags | scalar kind flags =>
    exact typeFaults_eq_nil_iff.mpr fun ⟨_, h⟩ => by cases h

namespace Generator

variable (g : Generator) (model : Model)

/-- The fault of a member whose type is free-form. -/
def memberFaults (member : String) (type : PropertyType) : List Fault :=
  if type.IsFreeForm then [.unsupportedField model.name member "Object"] else []

/-- The fault of a relation that has no resolver. -/
def relationFaults (relation : Relation) : List Fault :=
  if (g.relationResolver model relation).isSome then []
  else [.missingResolver model.name relation.name]

/-- All that can stop a run at a model, in the order in which the run meets it:
the types of properties, of arguments and of results, and then the relations, if
the model gets a resolver file. -/
def offences : List Fault :=
  (g.properties model).flatMap (fun property => memberFaults model property.name property.type) ++
    ((g.operations model).flatMap fun operation => operation.arguments.flatMap fun argument =>
      memberFaults model (operation.name ++ "." ++ argument.name) argument.type) ++
    (g.operations model).flatMap
      (fun operation => memberFaults model operation.name operation.returns) ++
    if g.emitsResolvers model then (g.relations model).flatMap (g.relationFaults model) else []

theorem memberFaults_eq (member : String) (type : PropertyType) :
    memberFaults model member type = (typeFaults type).map (Fault.atField model.name member) := by
  by_cases h : type.IsFreeForm <;> simp [memberFaults, typeFaults, h, Fault.atField]

theorem memberFaults_eq_nil_iff {member : String} {type : PropertyType} :
    memberFaults model member type = [] ↔ ¬ type.IsFreeForm := by
  simp [memberFaults]

theorem relationFaults_eq_nil_iff {relation : Relation} :
    g.relationFaults model relation = [] ↔ (g.relationResolver model relation).isSome := by
  cases h : g.relationResolver model relation <;> simp [relationFaults, h]

theorem propertyField_reports (property : Property) :
    Reports (g.propertyField model property)
      (memberFaults model property.name property.type) := by
  rw [memberFaults_eq]
  exact ((sdlType_reports _ _ _).mapError _).bind_pure _

theorem objectType_reports :
    Reports (g.objectType model) ((g.properties model).flatMap fun property =>
      memberFaults model property.name property.type) :=
  (Reports.mapM _ fun property _ => g.propertyField_reports model property).bind_pure _

theorem argumentField_reports (operation : Operation) (argument : Property) :
    Reports (g.argumentField model operation argument)
      (memberFaults model (operation.name ++ "." ++ argument.name) argument.type) := by
  rw [memberFaults_eq]
  exact ((sdlType_reports _ _ _).mapError _).bind_pure _

theorem operationInput_reports (operation : Operation) :
    Reports (g.operationInput model operation) (operation.arguments.flatMap fun argument =>
      memberFaults model (operation.name ++ "." ++ argument.name) argument.type) := by
  unfold operationInput
  split
  · rename_i h
    rw [h]
    exact Reports.ok _
  · exact (Reports.mapM _ fun argument _ =>
      g.argumentField_reports model operation argument).bind_pure _

theorem mutationField_reports (operation : Operation) :
    Reports (g.mutationField model operation)
      (memberFaults model operation.name operation.returns) := by
  rw [memberFaults_eq]
  exact (((sdlType_reports _ _ _).map _).mapError _).bind_pure _

theorem mutationFields_reports :
    Reports (g.mutationFields model) ((g.operations model).flatMap fun operation =>
      memberFaults model operation.name operation.returns) :=
  Reports.mapM _ fun operation _ => g.mutationField_reports model operation

/-- A well-formed model is composed unless a type in it is free-form. -/
theorem compose_reports (hcheck : model.check = .ok ()) :
    Reports (g.compose model)
      ((g.properties model).flatMap (fun property =>
          memberFaults model property.name property.type) ++
        ((g.operations model).flatMap (fun operation =>
          operation.arguments.flatMap fun argument =>
            memberFaults model (operation.name ++ "." ++ argument.name) argument.type) ++
        (g.operations model).flatMap fun operation =>
          memberFaults model operation.name operation.returns)) := by
  unfold compose
  rw [hcheck]
  -- the parts are composed in the order of the offences
  refine (g.objectType_reports model).bind fun object _ => ?_
  refine (Reports.mapM _ fun operation _ => g.operationInput_reports model operation).bind
    fun inputs _ => ?_
  exact (g.mutationFields_reports model).bind_pure _

theorem relationEntry_reports (relation : Relation) :
    Reports (g.relationEntry model relation) (g.relationFaults model relation) := by
  unfold relationEntry relationFaults
  split
  · rename_i source h
    simp only [h, Option.isSome_some, if_true]
    exact Reports.ok _
  · rename_i h
    simp only [h, Option.isSome_none, Bool.false_eq_true, if_false]
    exact Reports.error _

theorem resolvers_reports :
    Reports (g.resolvers model) ((g.relations model).flatMap (g.relationFaults model)) :=
  (Reports.mapM _ fun relation _ => g.relationEntry_reports model relation).bind_pure _

theorem modelOutput_reports (hcheck : model.check = .ok ()) :
    Reports (g.modelOutput model) (g.offences model) := by
  unfold modelOutput offences
  rw [List.append_assoc ((g.properties model).flatMap _)]
  refine (g.compose_reports model hcheck).bind fun composition _ => ?_
  split
  · exact (g.resolvers_reports model).bind_pure _
  · exact Reports.ok _

variable (g : Generator) (schema : Schema)

/-- A run over a well-formed schema meets the offences of its models in turn. -/
theorem generate_reports (hcheck : schema.check = .ok ()) :
    Reports (g.generate schema) ((g.models schema).flatMap g.offences) := by
  unfold generate
  rw [hcheck]
  refine (Reports.mapM _ fun model hmodel => ?_).bind_pure _
  exact g.modelOutput_reports model (Schema.model_check hcheck (List.mem_filter.mp hmodel).1)

/-- What a model must satisfy for output to be generated from it. -/
structure Accepts (model : Model) : Prop where
  /-- The types of its properties can be expressed. -/
  properties : ∀ property ∈ g.properties model, ¬ property.type.IsFreeForm
  /-- So can the types of the arguments of its operations. -/
  arguments : ∀ operation ∈ g.operations model, ∀ argument ∈ operation.arguments,
    ¬ argument.type.IsFreeForm
  /-- And those of their results. -/
  results : ∀ operation ∈ g.operations model, ¬ operation.returns.IsFreeForm
  /-- If it gets a resolver file, its relations have resolvers. -/
  relations : g.emitsResolvers model → ∀ relation ∈ g.relations model,
    (g.relationResolver model relation).isSome

theorem offences_eq_nil_iff (model : Model) : g.offences model = [] ↔ g.Accepts model := by
  simp only [offences, List.append_eq_nil_iff, List.flatMap_eq_nil_iff, memberFaults_eq_nil_iff]
  have hrelations : (if g.emitsResolvers model then
        (g.relations model).flatMap (g.relationFaults model) else []) = [] ↔
      (g.emitsResolvers model → ∀ relation ∈ g.relations model,
        (g.relationResolver model relation).isSome) := by
    split
    · rename_i h
      simp [h, relationFaults_eq_nil_iff]
    · rename_i h
      simp [h]
  rw [hrelations]
  constructor
  · rintro ⟨⟨⟨hp, ha⟩, hr⟩, hrel⟩
    exact ⟨hp, ha, hr, hrel⟩
  · intro h
    exact ⟨⟨⟨h.properties, h.arguments⟩, h.results⟩, h.relations⟩

theorem generate_isOk_iff :
    (∃ project, g.generate schema = .ok project) ↔
      schema.check = .ok () ∧ ∀ model ∈ g.models schema, g.Accepts model := by
  cases hcheck : schema.check with
  | error fault => simp [generate, hcheck, bind, Except.bind]
  | ok done =>
    rw [(g.generate_reports schema hcheck).isOk_iff, List.flatMap_eq_nil_iff]
    simp [offences_eq_nil_iff]

theorem generate_error_iff (fault : Fault) :
    g.generate schema = .error fault ↔
      schema.check = .error fault ∨
        (schema.check = .ok () ∧
          ((g.models schema).flatMap g.offences).head? = some fault) := by
  cases hcheck : schema.check with
  | error other => simp [generate, hcheck, bind, Except.bind]
  | ok done => simp [(g.generate_reports schema hcheck).error_iff]

/-- A generator with other settings for the shape and the place of the output. -/
def reshaped (mode : OutputMode) (filters : Bool) (lookup : LookupStyle) (idScalar : IdScalar)
    (outputDir mergedFile resolverDir : String) : Generator :=
  { g with config :=
    { g.config with mode, filters, lookup, idScalar, outputDir, mergedFile, resolverDir } }

/-- **The outcome of a run.**  A run succeeds exactly when the schema is well
formed and every emitted model is accepted.  It fails with the fault of the
schema, or else with the first offence of the first model that has one.  How and
where the output is written plays no part in its success. -/
theorem generate_outcome :
    ((∃ project, g.generate schema = .ok project) ↔
      schema.check = .ok () ∧ ∀ model ∈ g.models schema, g.Accepts model) ∧
    (∀ fault, g.generate schema = .error fault ↔
      schema.check = .error fault ∨
        (schema.check = .ok () ∧
          ((g.models schema).flatMap g.offences).head? = some fault)) ∧
    ∀ mode filters lookup idScalar outputDir mergedFile resolverDir,
      (∃ project, (g.reshaped mode filters lookup idScalar outputDir mergedFile
          resolverDir).generate schema = .ok project) ↔
        ∃ project, g.generate schema = .ok project := by
  refine ⟨g.generate_isOk_iff schema, g.generate_error_iff schema, ?_⟩
  intro mode filters lookup idScalar outputDir mergedFile resolverDir
  rw [generate_isOk_iff, generate_isOk_iff]
  -- none of the settings that differ occurs in what a model must satisfy
  constructor
  · rintro ⟨hcheck, h⟩
    exact ⟨hcheck, fun model hmodel =>
      have ha := h model hmodel
      ⟨ha.properties, ha.arguments, ha.results, ha.relations⟩⟩
  · rintro ⟨hcheck, h⟩
    exact ⟨hcheck, fun model hmodel =>
      have ha := h model hmodel
      ⟨ha.properties, ha.arguments, ha.results, ha.relations⟩⟩

end Generator
end Generate
end EntitySdl
