import EntitySdl.Proofs.FragmentTexts
import Mathlib.Data.List.Nodup

/-! # The names of fields

The fields of each type and input that comes from a model have different names.  Most of
them are called like members of the model, whose names do not repeat.  The filter has a
field for each property and operator, with an underscore between their names; since no
operator has one in its name, the last underscore of a field tells the two apart again,
and from the two fields that combine filters.
-/
namespace EntitySdl
namespace Generate

open Sdl

/-! ### Properties and operators -/

namespace Operator

/-- All operators. -/
def all : List Operator :=
  [lessThan, greaterThan, contains, notContains, startsWith, endsWith, isIn, equals, notEquals]

/-- The operator of a name. -/
def ofName? (name : String) : Option Operator := all.find? (·.name == name)

theorem ofName?_name (operator : Operator) : ofName? operator.name = some operator := by
  cases operator <;> decide

theorem underscore_not_mem_name (operator : Operator) : '_' ∉ operator.name.toList := by
  cases operator <;> decide

end Operator

/-- The name of the field that compares a property. -/
def comparisonName (property : String) (operator : Operator) : String :=
  property ++ "_" ++ operator.name

/-- What a field of a name compares: the property before the last underscore, by the operator
behind it. -/
def comparison? (field : String) : Option (String × Operator) :=
  match field.toList.reverse.dropWhile (· != '_') with
  | [] => none
  | _ :: before =>
    (Operator.ofName? (String.ofList (field.toList.reverse.takeWhile (· != '_')).reverse)).map
      fun operator => (String.ofList before.reverse, operator)

/-- The last underscore stands before the operator, whatever the property is called. -/
theorem comparison?_comparisonName (property : String) (operator : Operator) :
    comparison? (comparisonName property operator) = some (property, operator) := by
  have hlist : (comparisonName property operator).toList.reverse =
      operator.name.toList.reverse ++ '_' :: property.toList.reverse := by
    simp [comparisonName]
  have hplain : ∀ c ∈ operator.name.toList.reverse, (c != '_') = true := by
    intro c hc
    rw [bne_iff_ne]
    rintro rfl
    exact operator.underscore_not_mem_name (List.mem_reverse.mp hc)
  rw [comparison?, hlist, List.dropWhile_append_of_pos hplain, List.takeWhile_append_of_pos hplain]
  simp [Operator.ofName?_name]

theorem comparison?_or : comparison? "or" = none := by decide

theorem comparison?_and : comparison? "and" = none := by decide

theorem comparisonName_inj {property other : String} {operator operator' : Operator}
    (h : comparisonName property operator = comparisonName other operator') :
    property = other ∧ operator = operator' := by
  have hread := congrArg comparison? h
  simpa only [comparison?_comparisonName, Option.some.injEq, Prod.mk.injEq] using hread

/-- The operators that compare a property: those of its kind, if it is a scalar. -/
def operatorsOf (property : Property) : List Operator :=
  match property.type.scalarKind? with
  | none => []
  | some kind => operators kind

theorem operatorsOf_nodup (property : Property) : (operatorsOf property).Nodup := by
  have hkinds : ∀ kind, (operators kind).Nodup := by
    intro kind
    cases kind <;> decide
  unfold operatorsOf
  split
  · exact List.nodup_nil
  · exact hkinds _

namespace Generator

variable {g : Generator} {model : Model}

/-- The properties that a filter compares, each with its operators. -/
def comparisons (g : Generator) (model : Model) : List (Property × Operator) :=
  (g.properties model).flatMap fun property => (operatorsOf property).map (property, ·)

theorem mem_comparisons_iff {property : Property} {operator : Operator} :
    (property, operator) ∈ g.comparisons model ↔
      property ∈ g.properties model ∧ operator ∈ operatorsOf property := by
  simp [comparisons]

/-- The fields of a filter that compare properties are called after both. -/
theorem filterFields_name : (g.filterFields model).map FieldLine.name =
    (g.comparisons model).map fun (property, operator) =>
      comparisonName property.name operator := by
  rw [filterFields, comparisons, List.map_flatMap, List.map_flatMap]
  refine List.flatMap_congr fun property _ => ?_
  rw [operatorsOf]
  cases property.type.scalarKind? with
  | none => rfl
  | some kind =>
    simp only [List.map_map]
    rfl

theorem filterInput_fieldNames {filter : Block} (h : g.filterInput model = some filter) :
    filter.fieldNames = "or" :: "and" :: (g.comparisons model).map fun (property, operator) =>
      comparisonName property.name operator := by
  rw [← filterFields_name]
  unfold filterInput at h
  split at h
  · cases h
  · cases h
    rfl

theorem uniqueFilterInput_fieldNames {filter : Block}
    (h : g.uniqueFilterInput model = some filter) :
    filter.fieldNames = (g.identifiers model).map fun identifier => identifier.1.name := by
  unfold uniqueFilterInput at h
  split at h
  · cases h
  · cases h
    simp only [Block.fieldNames, List.map_map]
    rfl

theorem objectType_fieldNames {object : Block} (h : g.objectType model = .ok object) :
    object.fieldNames =
      (g.properties model).map Property.name ++ (g.relations model).map Relation.name := by
  obtain ⟨-, -, fields, hfields, hobject⟩ := objectType_eq_ok h
  have hproperties : fields.map FieldLine.name = (g.properties model).map Property.name :=
    map_eq_of_forall₂ (hfields.imp fun _ _ hfield => hfield.name)
  rw [Block.fieldNames, hobject, List.map_append, hproperties, List.map_map]
  rfl

theorem operationInput_fieldNames {operation : Operation} {input : Block}
    (h : g.operationInput model operation = .ok (some input)) :
    input.fieldNames = operation.arguments.map Property.name := by
  obtain ⟨-, -, -, hfields⟩ := operationInput_eq_some h
  exact map_eq_of_forall₂ (hfields.imp fun _ _ hfield => hfield.name)

/-! ### Names that do not repeat -/

section Distinct

variable (h : model.HasDistinctNames)

include h

theorem properties_name_nodup : ((g.properties model).map Property.name).Nodup :=
  (List.nodup_append.mp h.fields).1.sublist (List.filter_sublist.map Property.name)

theorem members_name_nodup :
    ((g.properties model).map Property.name ++ (g.relations model).map Relation.name).Nodup :=
  h.fields.sublist ((List.filter_sublist.map Property.name).append
    (List.filter_sublist.map Relation.name))

theorem identifiers_name_nodup :
    ((g.identifiers model).map fun identifier => identifier.1.name).Nodup := by
  have hnames := List.pairwise_map.mp (properties_name_nodup (g := g) h)
  rw [List.Nodup, List.pairwise_map, identifiers, List.pairwise_filterMap]
  refine (hnames.filter _).imp fun hne first hfirst second hsecond => ?_
  obtain ⟨_, -, rfl⟩ := Option.map_eq_some_iff.mp hfirst
  obtain ⟨_, -, rfl⟩ := Option.map_eq_some_iff.mp hsecond
  exact hne

/-- No property is compared twice by one operator. -/
theorem comparisons_name_nodup : ((g.comparisons model).map fun (property, operator) =>
    comparisonName property.name operator).Nodup := by
  rw [comparisons, List.map_flatMap, List.nodup_flatMap]
  constructor
  · intro property _
    rw [List.map_map]
    exact (operatorsOf_nodup property).map fun _ _ heq => (comparisonName_inj heq).2
  · refine (List.pairwise_map.mp (properties_name_nodup (g := g) h)).imp fun hne => ?_
    intro name hfirst hsecond
    simp only [List.map_map, List.mem_map, Function.comp_apply] at hfirst hsecond
    obtain ⟨operator, -, rfl⟩ := hfirst
    obtain ⟨operator', -, heq⟩ := hsecond
    exact hne (comparisonName_inj heq).1.symm

/-- None of them is called like a field that combines filters. -/
theorem filterInput_fieldNames_nodup {filter : Block}
    (hfilter : g.filterInput model = some filter) : filter.fieldNames.Nodup := by
  have hne : ∀ combined, comparison? combined = none →
      combined ∉ (g.comparisons model).map fun (property, operator) =>
        comparisonName property.name operator := by
    intro combined hnone hmem
    obtain ⟨⟨property, operator⟩, -, rfl⟩ := List.mem_map.mp hmem
    rw [comparison?_comparisonName] at hnone
    cases hnone
  rw [filterInput_fieldNames hfilter, List.nodup_cons, List.nodup_cons, List.mem_cons, not_or]
  exact ⟨⟨by decide, hne "or" comparison?_or⟩, hne "and" comparison?_and,
    comparisons_name_nodup h⟩

/-- A property is the only one of its name. -/
theorem property?_of_mem {property : Property} (hproperty : property ∈ model.properties) :
    model.property? property.name = some property := by
  have hnames := (List.nodup_append.mp h.fields).1
  cases hfound : model.property? property.name with
  | none => simpa using List.find?_eq_none.mp hfound property hproperty
  | some other =>
    have hname : other.name = property.name := by simpa using List.find?_some hfound
    rw [List.inj_on_of_nodup_map hnames (List.mem_of_find?_eq_some hfound) hproperty hname]

end Distinct

/-- A field of a filter compares a property that takes part, by an operator of its kind, and
its name tells which. -/
structure Compares (g : Generator) (model : Model) (property : Property) (operator : Operator)
    (field : String) : Prop where
  /-- The property takes part. -/
  takesPart : property ∈ g.properties model
  /-- The operator is one of its kind. -/
  offered : operator ∈ operatorsOf property
  /-- The field is called after both. -/
  name : field = comparisonName property.name operator
  /-- Both names can be read off. -/
  read : comparison? field = some (property.name, operator)
  /-- The property is found by its name. -/
  found : model.property? property.name = some property

/-- The fields of the types and inputs that come from a model have different names. -/
structure HasDistinctFields (g : Generator) (model : Model) : Prop where
  /-- Those of the object type. -/
  object : ∀ object, g.objectType model = .ok object → object.fieldNames.Nodup
  /-- Those of the input of an operation. -/
  operationInput : ∀ operation ∈ model.operations, ∀ input,
    g.operationInput model operation = .ok (some input) → input.fieldNames.Nodup
  /-- Those of the filter for a single record. -/
  uniqueFilter : ∀ filter, g.uniqueFilterInput model = some filter → filter.fieldNames.Nodup
  /-- Those of the filter: two that combine filters, and one for each property and operator. -/
  filter : ∀ filter, g.filterInput model = some filter → filter.fieldNames.Nodup ∧
    filter.fieldNames = "or" :: "and" :: (g.comparisons model).map fun (property, operator) =>
      comparisonName property.name operator
  /-- Each of the latter tells its property and its operator. -/
  compares : ∀ filter, g.filterInput model = some filter → ∀ field ∈ filter.fieldNames,
    field ≠ "or" → field ≠ "and" → ∃ property operator, g.Compares model property operator field
  /-- In particular, those of every type and input of a composition. -/
  blocks : ∀ c, g.compose model = .ok c → ∀ block ∈ c.blocks, block.fieldNames.Nodup
  /-- They are the fields that the definitions of its fragment declare. -/
  texts : ∀ c, g.compose model = .ok c → c.HasTexts

theorem compares_of_mem (h : model.HasDistinctNames) {filter : Block}
    (hfilter : g.filterInput model = some filter) {field : String}
    (hfield : field ∈ filter.fieldNames) (hor : field ≠ "or") (hand : field ≠ "and") :
    ∃ property operator, g.Compares model property operator field := by
  rw [filterInput_fieldNames hfilter, List.mem_cons, List.mem_cons] at hfield
  obtain ⟨⟨property, operator⟩, hmem, rfl⟩ :=
    List.mem_map.mp ((hfield.resolve_left hor).resolve_left hand)
  obtain ⟨hproperty, hoperator⟩ := mem_comparisons_iff.mp hmem
  exact ⟨property, operator, hproperty, hoperator, rfl, comparison?_comparisonName _ _,
    property?_of_mem h (List.mem_filter.mp hproperty).1⟩

theorem operationInput_fieldNames_nodup (h : model.HasDistinctNames) {operation : Operation}
    (hoperation : operation ∈ model.operations) {input : Block}
    (hinput : g.operationInput model operation = .ok (some input)) : input.fieldNames.Nodup := by
  rw [operationInput_fieldNames hinput]
  exact h.arguments operation hoperation

/-- The types and inputs of a composition are those of the parts of its model. -/
theorem blocks_fieldNames_nodup (h : model.HasDistinctNames) {c : Composition}
    (hc : g.compose model = .ok c) : ∀ block ∈ c.blocks, block.fieldNames.Nodup := by
  refine (isComposition_of_compose hc).forall_blocks ?_ ?_ (List.nodup_singleton _) ?_ ?_
  · intro object hobject
    rw [objectType_fieldNames hobject]
    exact members_name_nodup h
  · intro operation hoperation input hinput
    exact operationInput_fieldNames_nodup h (List.mem_filter.mp hoperation).1 hinput
  · exact fun filter hfilter => filterInput_fieldNames_nodup h hfilter
  · intro filter hfilter
    rw [uniqueFilterInput_fieldNames hfilter]
    exact identifiers_name_nodup h

/-- **Fields of one type have different names.**  In a model that passes the rules, neither
the fields of the object type repeat, nor those of an input of an operation, nor those of
the filters; and a field of a filter that compares a property by an operator tells both by
its name. -/
theorem field_names_distinct (h : model.check = .ok ()) : HasDistinctFields g model := by
  have hnames := (Model.check_eq_ok_iff.mp h).2
  exact
    { object := fun object hobject => by
        rw [objectType_fieldNames hobject]
        exact members_name_nodup hnames
      operationInput := fun operation hoperation _ =>
        operationInput_fieldNames_nodup hnames hoperation
      uniqueFilter := fun filter hfilter => by
        rw [uniqueFilterInput_fieldNames hfilter]
        exact identifiers_name_nodup hnames
      filter := fun filter hfilter =>
        ⟨filterInput_fieldNames_nodup hnames hfilter, filterInput_fieldNames hfilter⟩
      compares := fun filter hfilter field => compares_of_mem hnames hfilter
      blocks := fun c => blocks_fieldNames_nodup hnames
      texts := fun c => hasTexts_of_compose }

/-- A model whose properties have underscores and operators in their names. -/
def gauge : Model where
  name := "Gauge"
  properties := [⟨"id", .scalar .uniqueIdentifier { isPrimaryKey := true }⟩,
    ⟨"or", .scalar .boolean {}⟩, ⟨"or_equals", .scalar .boolean {}⟩,
    ⟨"_", .scalar .decimal { unique := true }⟩]
  relations := [{ name := "and", model := "Gauge" }]
  operations := [{ name := "reset", arguments := [⟨"at", .scalar .dateTime {}⟩,
    ⟨"at_in", .scalar .boolean {}⟩], returns := .scalar .boolean {} }]

theorem field_names_distinct_gauge : gauge.check = .ok () ∧ HasDistinctFields {} gauge ∧
    ∃ c, ({} : Generator).compose gauge = .ok c ∧
      c.filter.map Block.fieldNames = some ["or", "and", "id_in", "id_equals", "id_notEquals",
        "or_equals", "or_notEquals", "or_equals_equals", "or_equals_notEquals", "__lessThan",
        "__greaterThan", "__equals", "__notEquals"] :=
  ⟨rfl, field_names_distinct rfl, _, rfl, rfl⟩

end Generator
end Generate
end EntitySdl
