import EntitySdl.Proofs.Success
import EntitySdl.Schema.Validation

/-! # Well-formed models

What the rules for schemas say of the names in a model, without the order in
which the rules are applied: they are identifiers, and they do not repeat.
-/
namespace EntitySdl

open Name

/-- The names in a model are identifiers, and so are the targets of its
relations. -/
structure Model.WellFormed (model : Model) : Prop where
  /-- The name of the model. -/
  name : isIdentifier model.name
  /-- The names of its properties. -/
  properties : ∀ property ∈ model.properties, isIdentifier property.name
  /-- The names and the targets of its relations. -/
  relations : ∀ relation ∈ model.relations,
    isIdentifier relation.name ∧ isIdentifier relation.model
  /-- The names of its operations. -/
  operations : ∀ operation ∈ model.operations, isIdentifier operation.name
  /-- The names of their arguments. -/
  arguments : ∀ operation ∈ model.operations, ∀ argument ∈ operation.arguments,
    isIdentifier argument.name

theorem Property.check_eq_ok_iff {property : Property} :
    property.check = .ok () ↔ isIdentifier property.name := by
  unfold Property.check
  split <;> simp_all

theorem Relation.check_eq_ok_iff {relation : Relation} :
    relation.check = .ok () ↔ isIdentifier relation.name ∧ isIdentifier relation.model := by
  unfold Relation.check
  cases isIdentifier relation.name <;> cases isIdentifier relation.model <;> simp

/-- No two members of one kind in a model have one name, and neither have two
arguments of one operation. -/
structure Model.HasDistinctNames (model : Model) : Prop where
  /-- Properties and relations share the fields of the object type. -/
  fields : (model.properties.map Property.name ++ model.relations.map Relation.name).Nodup
  /-- Operations. -/
  operations : (model.operations.map Operation.name).Nodup
  /-- Arguments. -/
  arguments : ∀ operation ∈ model.operations, (operation.arguments.map Property.name).Nodup

/-- Members with new names, in a list and one before it. -/
theorem forall_new_cons {α : Type} {good : α → Prop} {name : α → String} {first : α}
    {rest : List α} {taken : List String} :
    ((∀ member ∈ first :: rest, good member ∧ name member ∉ taken) ∧
        ((first :: rest).map name).Nodup) ↔
      good first ∧ name first ∉ taken ∧
        (∀ member ∈ rest, good member ∧ name member ∉ name first :: taken) ∧
          (rest.map name).Nodup := by
  rw [List.forall_mem_cons, List.map_cons, List.nodup_cons]
  constructor
  · rintro ⟨⟨⟨hgood, htaken⟩, hrest⟩, hnew, hnodup⟩
    refine ⟨hgood, htaken, fun member h => ⟨(hrest member h).1, ?_⟩, hnodup⟩
    rw [List.mem_cons, not_or]
    exact ⟨fun hname => hnew (hname ▸ List.mem_map_of_mem h), (hrest member h).2⟩
  · rintro ⟨hgood, htaken, hrest, hnodup⟩
    refine ⟨⟨⟨hgood, htaken⟩, fun member h => ⟨(hrest member h).1, fun hmem => ?_⟩⟩, fun hmem => ?_,
      hnodup⟩
    · exact (hrest member h).2 (List.mem_cons_of_mem _ hmem)
    · obtain ⟨member, h, hname⟩ := List.mem_map.mp hmem
      exact (hrest member h).2 (hname ▸ List.mem_cons_self)

theorem Operation.checkArguments_eq_ok_iff {operation : String} {arguments : List Property}
    {taken : List String} : Operation.checkArguments operation arguments taken = .ok () ↔
      (∀ argument ∈ arguments, isIdentifier argument.name ∧ argument.name ∉ taken) ∧
        (arguments.map Property.name).Nodup := by
  induction arguments generalizing taken with
  | nil => simp [Operation.checkArguments]
  | cons argument rest ih =>
    unfold Operation.checkArguments
    refine seq_eq_ok_iff.trans ((and_congr_right fun _ => unless_eq_ok_iff).trans ?_)
    rw [ih, List.contains_iff_mem, Property.check_eq_ok_iff,
      forall_new_cons]

theorem Operation.check_eq_ok_iff {operation : Operation} : operation.check = .ok () ↔
    isIdentifier operation.name ∧
      (∀ argument ∈ operation.arguments, isIdentifier argument.name) ∧
        (operation.arguments.map Property.name).Nodup := by
  unfold Operation.check
  split
  · rename_i h
    simp [h, Operation.checkArguments_eq_ok_iff]
  · rename_i h
    simp [h]

/-- Members pass the rules when each of them does and no name is taken twice. -/
theorem Model.checkMembers_eq_ok_iff {α : Type} {model : String} {kind : MemberKind}
    {name : α → String} {check : α → Except Violation Unit} {members : List α}
    {taken left : List String} :
    Model.checkMembers model kind name check members taken = .ok left ↔
      ((∀ member ∈ members, check member = .ok () ∧ name member ∉ taken) ∧
        (members.map name).Nodup) ∧ left = (members.map name).reverse ++ taken := by
  induction members generalizing taken with
  | nil => simp [Model.checkMembers, eq_comm]
  | cons member rest ih =>
    unfold Model.checkMembers
    refine seq_eq_ok_iff.trans ((and_congr_right fun _ => unless_eq_ok_iff).trans ?_)
    rw [ih, List.contains_iff_mem, mapError_eq_ok_iff,
      forall_new_cons]
    simp only [and_assoc, List.map_cons, List.reverse_cons, List.append_assoc,
      List.singleton_append]

/-- **The rules for a model.**  A model passes them when its names are well formed and
do not repeat. -/
theorem Model.check_eq_ok_iff {model : Model} :
    model.check = .ok () ↔ model.WellFormed ∧ model.HasDistinctNames := by
  have hempty : isIdentifier model.name → ¬ model.name.isEmpty := by
    intro hname hempty
    rw [String.isEmpty_iff.mp hempty] at hname
    exact absurd hname (by decide)
  unfold Model.check
  refine unless_eq_ok_iff.trans ((and_congr_right fun _ => unless_eq_ok_iff).trans ?_)
  simp only [bind_eq_ok_iff, Model.checkMembers_eq_ok_iff, Property.check_eq_ok_iff,
    Relation.check_eq_ok_iff, Operation.check_eq_ok_iff]
  constructor
  · rintro ⟨-, hname, _, ⟨⟨hproperties, hnodup⟩, rfl⟩, _, ⟨⟨hrelations, hnodup'⟩, -⟩, _,
      ⟨⟨hoperations, hnodup''⟩, -⟩, -⟩
    have hdisjoint : ∀ relation ∈ model.relations,
        relation.name ∉ model.properties.map Property.name :=
      fun relation h hmem => (hrelations relation h).2 (by simpa using hmem)
    refine ⟨⟨by simpa using hname, fun property h => (hproperties property h).1,
      fun relation h => (hrelations relation h).1, fun operation h => (hoperations operation h).1.1,
      fun operation h => (hoperations operation h).1.2.1⟩, ⟨?_, hnodup'',
      fun operation h => (hoperations operation h).1.2.2⟩⟩
    refine List.nodup_append.mpr ⟨hnodup, hnodup', ?_⟩
    rintro name hmem _ hmem' rfl
    obtain ⟨relation, hrelation, rfl⟩ := List.mem_map.mp hmem'
    exact hdisjoint relation hrelation hmem
  · rintro ⟨hw, hd⟩
    obtain ⟨hnodup, hnodup', hdisjoint⟩ := List.nodup_append.mp hd.fields
    refine ⟨hempty hw.name, by simpa using hw.name, _,
      ⟨⟨fun property h => ⟨hw.properties property h, by simp⟩, hnodup⟩, rfl⟩, _,
      ⟨⟨fun relation h => ⟨hw.relations relation h, fun hmem => ?_⟩, hnodup'⟩, rfl⟩, _,
      ⟨⟨fun operation h => ⟨⟨hw.operations operation h, hw.arguments operation h,
        hd.arguments operation h⟩, by simp⟩, hd.operations⟩, rfl⟩, rfl⟩
    exact hdisjoint _ (by simpa using hmem) _ (List.mem_map_of_mem h) rfl

/-- A model that passes the rules is well formed. -/
theorem Model.wellFormed_of_check {model : Model} (h : model.check = .ok ()) :
    model.WellFormed := (Model.check_eq_ok_iff.mp h).1

theorem Schema.checkModels_eq_ok_iff {models : List Model} {taken : List String} :
    Schema.checkModels models taken = .ok () ↔
      (∀ model ∈ models, model.check = .ok () ∧ model.name ∉ taken) ∧
        (models.map Model.name).Nodup := by
  induction models generalizing taken with
  | nil => simp [Schema.checkModels]
  | cons model rest ih =>
    unfold Schema.checkModels
    refine seq_eq_ok_iff.trans ((and_congr_right fun _ => unless_eq_ok_iff).trans ?_)
    rw [ih, List.contains_iff_mem, forall_new_cons]

/-- **The rules for a schema.**  A schema passes them when each model does and no two
models have one name. -/
theorem Schema.check_eq_ok_iff {schema : Schema} : schema.check = .ok () ↔
    (∀ model ∈ schema.models, model.check = .ok ()) ∧ (schema.models.map Model.name).Nodup := by
  simp [Schema.check, Schema.checkModels_eq_ok_iff]

theorem Schema.model_check {schema : Schema} (h : schema.check = .ok ()) {model : Model}
    (hmodel : model ∈ schema.models) : model.check = .ok () :=
  (Schema.check_eq_ok_iff.mp h).1 model hmodel

end EntitySdl
