import EntitySdl.Proofs.Addresses
import EntitySdl.Schema.Basic

/-! # References between models

A model refers to others by its relations and by its types, through any depth of lists.
Each place where it does so has an address: relations stand in part 0 of the model,
properties in part 1 and operations in part 2, where the arguments of an operation come
before its result.  A reference dangles if the schema has no model of that name.  When a
model is added, the references to it no longer dangle, and its own ones are appended.
-/
namespace EntitySdl

open Address

/-- A type names a model of the same schema, maybe inside lists.  Models of other schemas do
not count. -/
inductive PropertyType.Names : PropertyType → String → Prop where
  /-- The type is the model. -/
  | reference (name : String) (flags : Flags) : Names (.reference name flags) name
  /-- The type is a list of a type that names it. -/
  | array {member : PropertyType} {name : String} (h : Names member name) (flags : Flags) :
      Names (.array member flags) name

theorem PropertyType.referencedModel?_eq_some_iff {type : PropertyType} {name : String} :
    type.referencedModel? = some name ↔ type.Names name := by
  constructor
  · intro h
    induction type with
    | array member flags ih => exact .array (ih h) flags
    | reference model flags =>
      cases h
      exact .reference name flags
    | object | imported | scalar => cases h
  · intro h
    induction h with
    | reference => rfl
    | array _ _ ih => exact ih

/-- A model of a name is part of a schema. -/
def Schema.Defines (schema : Schema) (name : String) : Prop :=
  ∃ model ∈ schema.models, model.name = name

/-- A model refers to models of a schema only. -/
structure Model.RefersWithin (model : Model) (schema : Schema) : Prop where
  /-- The targets of relations. -/
  relations : ∀ relation ∈ model.relations, schema.Defines relation.model
  /-- The models in the types of properties. -/
  properties : ∀ property ∈ model.properties, ∀ name, property.type.Names name →
    schema.Defines name
  /-- Those in the types of arguments. -/
  arguments : ∀ operation ∈ model.operations, ∀ argument ∈ operation.arguments, ∀ name,
    argument.type.Names name → schema.Defines name
  /-- And those in the types of results. -/
  results : ∀ operation ∈ model.operations, ∀ name, operation.returns.Names name →
    schema.Defines name

namespace Model

/-- A model refers to another at an address. -/
inductive RefersAt (model : Model) : Address → DanglingReference → Prop where
  /-- By a relation. -/
  | relation {i : Nat} {relation : Relation} (h : model.relations[i]? = some relation) :
      RefersAt model [0, i] ⟨model.name, relation.name, relation.model⟩
  /-- By the type of a property. -/
  | property {i : Nat} {property : Property} {target : String}
      (h : model.properties[i]? = some property) (htarget : property.type.Names target) :
      RefersAt model [1, i] ⟨model.name, property.name, target⟩
  /-- By the type of an argument of an operation. -/
  | argument {i j : Nat} {operation : Operation} {argument : Property} {target : String}
      (h : model.operations[i]? = some operation)
      (hargument : operation.arguments[j]? = some argument)
      (htarget : argument.type.Names target) :
      RefersAt model [2, i, 0, j] ⟨model.name, operation.name ++ "." ++ argument.name, target⟩
  /-- By the type of its result. -/
  | result {i : Nat} {operation : Operation} {target : String}
      (h : model.operations[i]? = some operation) (htarget : operation.returns.Names target) :
      RefersAt model [2, i, 1] ⟨model.name, operation.name, target⟩

/-- The use of a model by a member with a type, if there is one. -/
def typeUses (model : Model) (member : String) (type : PropertyType) :
    List (Address × DanglingReference) :=
  type.referencedModel?.toList.map fun target => ([], ⟨model.name, member, target⟩)

/-- The uses of other models by an operation, with their addresses in it. -/
def operationUses (model : Model) (operation : Operation) : List (Address × DanglingReference) :=
  collect [collect (operation.arguments.map fun argument =>
      model.typeUses (operation.name ++ "." ++ argument.name) argument.type),
    model.typeUses operation.name operation.returns]

/-- The uses of other models by a model, with their addresses in it. -/
def uses (model : Model) : List (Address × DanglingReference) :=
  collect [collect (model.relations.map fun relation =>
      [([], ⟨model.name, relation.name, relation.model⟩)]),
    collect (model.properties.map fun property => model.typeUses property.name property.type),
    collect (model.operations.map model.operationUses)]

variable (model : Model)

theorem map_snd_typeUses (member : String) (type : PropertyType) :
    (model.typeUses member type).map Prod.snd =
      type.referencedModel?.toList.map fun target => ⟨model.name, member, target⟩ :=
  List.map_map

/-- The uses are the references of the model, one by one. -/
theorem map_snd_uses : model.uses.map Prod.snd = model.references := by
  have hrelations : (collect (model.relations.map fun relation =>
      [(([] : Address), (⟨model.name, relation.name, relation.model⟩ : DanglingReference))])).map
        Prod.snd =
      model.relations.map fun relation => ⟨model.name, relation.name, relation.model⟩ := by
    rw [map_snd_collect_map, List.map_eq_flatMap]
    rfl
  have hoperation : ∀ operation, (model.operationUses operation).map Prod.snd =
      (operation.arguments.flatMap fun argument => argument.type.referencedModel?.toList.map
        fun target => ⟨model.name, operation.name ++ "." ++ argument.name, target⟩) ++
      operation.returns.referencedModel?.toList.map
        fun target => ⟨model.name, operation.name, target⟩ := fun operation => by
    rw [operationUses, map_snd_collect]
    simp only [List.map_cons, List.map_nil, List.flatten_cons,
      List.flatten_nil, List.append_nil, map_snd_collect_map, map_snd_typeUses]
  rw [uses, map_snd_collect]
  simp only [List.map_cons, List.map_nil, List.flatten_cons, List.flatten_nil, List.append_nil,
    hrelations, map_snd_collect_map, map_snd_typeUses, hoperation, references, List.append_assoc]

theorem enumerates_typeUses (member : String) (type : PropertyType) :
    Enumerates (model.typeUses member type) fun address use =>
      address = [] ∧ ∃ target, type.Names target ∧ use = ⟨model.name, member, target⟩ := by
  simp only [← PropertyType.referencedModel?_eq_some_iff, typeUses]
  cases type.referencedModel? with
  | none => exact ⟨.nil, fun _ _ => by simp⟩
  | some name => exact ⟨List.pairwise_singleton _ _, fun _ _ => by simp⟩

theorem enumerates_operationUses (operation : Operation) :
    Enumerates (model.operationUses operation) fun address use =>
      (∃ j argument target, address = [0, j] ∧ operation.arguments[j]? = some argument ∧
        argument.type.Names target ∧
          use = ⟨model.name, operation.name ++ "." ++ argument.name, target⟩) ∨
      (address = [1] ∧ ∃ target, operation.returns.Names target ∧
        use = ⟨model.name, operation.name, target⟩) := by
  have harguments := Enumerates.collect_map operation.arguments fun argument _ =>
    model.enumerates_typeUses (operation.name ++ "." ++ argument.name) argument.type
  refine (Enumerates.collect (.cons harguments (.cons (model.enumerates_typeUses operation.name
    operation.returns) .nil))).congr fun address use => ?_
  constructor
  · rintro ⟨i, stands, rest, hi, rfl, hstands⟩
    match i, hi with
    | 0, rfl =>
      obtain ⟨j, argument, _, hargument, rfl, rfl, target, htarget, huse⟩ := hstands
      exact .inl ⟨j, argument, target, rfl, hargument, htarget, huse⟩
    | 1, rfl =>
      obtain ⟨rfl, htarget⟩ := hstands
      exact .inr ⟨rfl, htarget⟩
  · rintro (⟨j, argument, target, rfl, hargument, htarget, huse⟩ | ⟨rfl, htarget⟩)
    · exact ⟨0, _, _, rfl, rfl, j, argument, [], hargument, rfl, rfl, target, htarget, huse⟩
    · exact ⟨1, _, _, rfl, rfl, rfl, htarget⟩

theorem enumerates_uses : Enumerates model.uses model.RefersAt := by
  have hrelations := Enumerates.collect_map model.relations fun relation _ =>
    Enumerates.singleton (⟨model.name, relation.name, relation.model⟩ : DanglingReference)
  have hproperties := Enumerates.collect_map model.properties fun property _ =>
    model.enumerates_typeUses property.name property.type
  have hoperations := Enumerates.collect_map model.operations fun operation _ =>
    model.enumerates_operationUses operation
  refine (Enumerates.collect (.cons hrelations (.cons hproperties (.cons hoperations
    .nil)))).congr fun address use => ?_
  constructor
  · rintro ⟨i, stands, rest, hi, rfl, hstands⟩
    match i, hi with
    | 0, rfl =>
      obtain ⟨i, relation, _, hrelation, rfl, rfl, rfl⟩ := hstands
      exact .relation hrelation
    | 1, rfl =>
      obtain ⟨i, property, _, hproperty, rfl, rfl, target, htarget, rfl⟩ := hstands
      exact .property hproperty htarget
    | 2, rfl =>
      obtain ⟨i, operation, _, hoperation, rfl, hstands⟩ := hstands
      rcases hstands with ⟨j, argument, target, rfl, hargument, htarget, rfl⟩ | ⟨rfl, target,
        htarget, rfl⟩
      · exact .argument hoperation hargument htarget
      · exact .result hoperation htarget
  · intro h
    cases h with
    | relation h => exact ⟨0, _, _, rfl, rfl, _, _, _, h, rfl, rfl, rfl⟩
    | property h htarget => exact ⟨1, _, _, rfl, rfl, _, _, _, h, rfl, rfl, _, htarget, rfl⟩
    | argument h hargument htarget =>
      exact ⟨2, _, _, rfl, rfl, _, _, _, h, rfl, .inl ⟨_, _, _, rfl, hargument, htarget, rfl⟩⟩
    | result h htarget =>
      exact ⟨2, _, _, rfl, rfl, _, _, _, h, rfl, .inr ⟨rfl, _, htarget, rfl⟩⟩

end Model

namespace Schema

variable {schema : Schema} {model : Model}

theorem any_name_eq_iff {name : String} :
    schema.models.any (·.name == name) ↔ schema.Defines name := by
  simp [Defines]

theorem defines_push_iff {name : String} :
    (schema.push model).Defines name ↔ schema.Defines name ∨ model.name = name := by
  simp [Defines, push, or_and_right, exists_or]

/-- A reference of a schema dangles if it stands somewhere in a model, and there is no model
of that name. -/
theorem mem_danglingReferences_iff {use : DanglingReference} :
    use ∈ schema.danglingReferences ↔ (∃ model ∈ schema.models, ∃ address,
      model.RefersAt address use) ∧ ¬ schema.Defines use.target := by
  have hreferences : ∀ model : Model, use ∈ model.references ↔
      ∃ address, model.RefersAt address use := fun model => by
    simp only [← model.map_snd_uses, List.mem_map, Prod.exists, exists_eq_right,
      model.enumerates_uses.mem_iff]
  rw [danglingReferences, List.mem_filter, List.mem_flatMap, Bool.not_eq_true', ← Bool.not_eq_true,
    any_name_eq_iff]
  simp only [hreferences]

/-- Nothing dangles when the models refer to each other only. -/
theorem danglingReferences_eq_nil_iff :
    schema.danglingReferences = [] ↔ ∀ model ∈ schema.models, model.RefersWithin schema := by
  rw [List.eq_nil_iff_forall_not_mem]
  simp only [mem_danglingReferences_iff, not_and_not_right]
  constructor
  · intro h model hmodel
    have hat : ∀ {address use}, model.RefersAt address use → schema.Defines use.target :=
      fun {address use} hrefers => h use ⟨model, hmodel, address, hrefers⟩
    refine ⟨fun relation hmem => ?_, fun property hmem name hname => ?_,
      fun operation hmem argument hargument name hname => ?_, fun operation hmem name hname => ?_⟩
    · obtain ⟨i, hi⟩ := List.mem_iff_getElem?.mp hmem
      exact hat (.relation hi)
    · obtain ⟨i, hi⟩ := List.mem_iff_getElem?.mp hmem
      exact hat (.property hi hname)
    · obtain ⟨i, hi⟩ := List.mem_iff_getElem?.mp hmem
      obtain ⟨j, hj⟩ := List.mem_iff_getElem?.mp hargument
      exact hat (.argument hi hj hname)
    · obtain ⟨i, hi⟩ := List.mem_iff_getElem?.mp hmem
      exact hat (.result hi hname)
  · rintro h use ⟨model, hmodel, address, hrefers⟩
    have hwithin := h model hmodel
    cases hrefers with
    | relation hi => exact hwithin.relations _ (List.mem_of_getElem? hi)
    | property hi hname => exact hwithin.properties _ (List.mem_of_getElem? hi) _ hname
    | argument hi hj hname =>
      exact hwithin.arguments _ (List.mem_of_getElem? hi) _ (List.mem_of_getElem? hj) _ hname
    | result hi hname => exact hwithin.results _ (List.mem_of_getElem? hi) _ hname

/-- When a model is added, the references to it no longer dangle, and those of its own
references do which are to no model. -/
theorem danglingReferences_push :
    (schema.push model).danglingReferences =
      schema.danglingReferences.filter (fun use => use.target ≠ model.name) ++
        model.references.filter
          fun use => !(schema.push model).models.any (·.name == use.target) := by
  have hold : ∀ use : DanglingReference,
      (!(schema.push model).models.any (·.name == use.target)) =
        (decide (use.target ≠ model.name) && !schema.models.any (·.name == use.target)) :=
    fun use => by
      simp [push, Bool.and_comm, eq_comm, beq_eq_decide]
  rw [danglingReferences, danglingReferences, List.filter_filter]
  simp only [← hold]
  rw [← List.filter_append]
  simp [push]

/-- **Dangling references.**  There are none exactly when all models refer to models of the
schema.  When a model is added, those to it are gone, the others stay as they are, and
behind them come the references of the new model, each one once and in order, that are
neither to a model which was there nor to itself. -/
theorem danglingReferences_exact (schema : Schema) :
    (schema.danglingReferences = [] ↔ ∀ model ∈ schema.models, model.RefersWithin schema) ∧
    ∀ model, ∃ added, (schema.push model).danglingReferences =
        schema.danglingReferences.filter (fun use => use.target ≠ model.name) ++
          added.map Prod.snd ∧
      Enumerates added fun address use =>
        model.RefersAt address use ∧ ¬ schema.Defines use.target ∧ use.target ≠ model.name := by
  refine ⟨danglingReferences_eq_nil_iff, fun model => ?_⟩
  let dangles := fun use : DanglingReference =>
    !(schema.push model).models.any (·.name == use.target)
  refine ⟨model.uses.filter fun entry => dangles entry.2, ?_, ?_⟩
  · rw [danglingReferences_push, ← model.map_snd_uses, List.filter_map]
    rfl
  · refine (model.enumerates_uses.filter dangles).congr fun address use => ?_
    refine and_congr_right fun _ => ?_
    rw [Bool.not_eq_true', ← Bool.not_eq_true, any_name_eq_iff, defines_push_iff, not_or]
    exact and_congr_right fun _ => ne_comm

end Schema
end EntitySdl
