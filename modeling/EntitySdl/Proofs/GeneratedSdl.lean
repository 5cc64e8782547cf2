import EntitySdl.Proofs.ComposedParts
import EntitySdl.Proofs.FieldLines

/-! # Generated SDL is read back

The names in generated SDL are names of a schema, scalars and names derived from
these.  When all of them are identifiers and no directives are supplied, every
block and every root field of a model is read as what it was written for.
-/
namespace EntitySdl

open Name Sdl

theorem isIdentifier_append {name other : String} (h : isIdentifier name)
    (hother : ∀ c ∈ other.toList, isNamePart c) : isIdentifier (name ++ other) := by
  unfold isIdentifier at h ⊢
  rw [String.toList_append]
  cases hname : name.toList with
  | nil =>
    rw [hname] at h
    cases h
  | cons c cs =>
    rw [hname] at h
    simp only [isIdentifierText, List.cons_append, Bool.and_eq_true, List.all_eq_true,
      List.forall_mem_append] at h ⊢
    exact ⟨h.1, h.2, hother⟩

/-- All names of models in a property type are identifiers. -/
def PropertyType.IsNamed : PropertyType → Prop
  | .object _ | .scalar _ _ => True
  | .array member _ => member.IsNamed
  | .reference name _ | .imported name _ => isIdentifier name

theorem ScalarKind.isIdentifier_sdlName (idScalar : IdScalar) (kind : ScalarKind) :
    isIdentifier (kind.sdlName idScalar) := by
  cases idScalar <;> cases kind <;> decide

namespace Generate

theorem isIdentifier_modelType {idScalar : IdScalar} {position : Position} {name : String}
    (h : isIdentifier name) : isIdentifier (modelType idScalar position name) := by
  unfold modelType
  split
  · exact isIdentifier_append h (by decide)
  · exact h

theorem isNamed_sdlType {idScalar : IdScalar} {position : Position} {type : PropertyType}
    (h : type.IsNamed) {ref : TypeRef} (href : sdlType idScalar position type = .ok ref) :
    ref.IsNamed := by
  induction type generalizing ref with
  | object => cases href
  | array member flags ih =>
    obtain ⟨inner, hinner, href⟩ := bind_eq_ok_iff.mp href
    cases href
    have hmember := ih h hinner
    exact hmember
  | reference name flags | imported name flags =>
    cases href
    exact isIdentifier_modelType h
  | scalar kind flags =>
    cases href
    exact kind.isIdentifier_sdlName idScalar

/-- No identifier ends with an exclamation mark. -/
theorem stripMark_of_isIdentifier {name : String} (h : isIdentifier name) :
    stripMark name = name := by
  unfold stripMark
  split
  · rename_i rest hreverse
    have hmark : '!' ∈ name.toList := by
      rw [← List.mem_reverse, hreverse]
      exact List.mem_cons_self
    cases isNamePart_of_mem h _ hmark
  · rfl

theorem optional_named {name : String} (h : isIdentifier name) (required : Bool) :
    (TypeRef.named name required).optional = .named name false := by
  cases required with
  | true => rfl
  | false => rw [TypeRef.optional, stripMark_of_isIdentifier h]

theorem isNamed_optional {ref : TypeRef} (h : ref.IsNamed) : ref.optional.IsNamed := by
  cases ref with
  | list => exact h
  | named name required =>
    rw [optional_named h]
    exact h

namespace Generator

variable {g : Generator} {model : Model}

/-- A model whose SDL can be split again: no directives are supplied, it has fields, it
does not take the place of a root type, and all names in its SDL are identifiers. -/
structure IsSplittable (g : Generator) (model : Model) : Prop where
  /-- No field has a directive. -/
  directives : ∀ field, g.fieldDirective model field = none
  /-- A property or a relation takes part. -/
  exposes : g.properties model ≠ [] ∨ g.relations model ≠ []
  /-- It is not called like a root type. -/
  root : model.name ≠ "Query" ∧ model.name ≠ "Mutation"
  /-- The models in the types of its properties have identifiers as names. -/
  properties : ∀ property ∈ g.properties model, property.type.IsNamed
  /-- So have those in the types of arguments. -/
  arguments : ∀ operation ∈ g.operations model, ∀ argument ∈ operation.arguments,
    argument.type.IsNamed
  /-- And those in the types of results. -/
  results : ∀ operation ∈ g.operations model, operation.returns.IsNamed
  /-- The names of its queries are identifiers. -/
  queries : ∀ name ∈ g.queryNames model, isIdentifier name
  /-- The arguments of queries for single properties are identifiers. -/
  lookups : g.config.lookup = .perIdentifier → ∀ identifier ∈ g.identifiers model,
    isIdentifier (camel identifier.1.name)
  /-- The inputs with the arguments of operations are identifiers. -/
  inputs : ∀ operation ∈ g.operations model, operation.arguments ≠ [] →
    isIdentifier (Naming.argsType operation.name)

theorem isPlain_propertyField (hs : g.IsSplittable model) (hw : model.WellFormed)
    {property : Property} (hproperty : property ∈ g.properties model) {field : FieldLine}
    (h : IsPropertyField g model property field) : field.IsPlain where
  name := by
    rw [h.name]
    exact hw.properties property (List.mem_filter.mp hproperty).1
  arguments := by simp [h.arguments]
  type := isNamed_sdlType (hs.properties property hproperty) h.type
  directive := by rw [h.directive, hs.directives]

theorem isPlain_relationField (hs : g.IsSplittable model) (hw : model.WellFormed)
    {relation : Relation} (hrelation : relation ∈ g.relations model) :
    (g.relationField model relation).IsPlain where
  name := (hw.relations relation (List.mem_filter.mp hrelation).1).1
  arguments := by simp [relationField]
  type := by
    have htarget := (hw.relations relation (List.mem_filter.mp hrelation).1).2
    change (relationType relation).IsNamed
    unfold relationType
    split
    · exact htarget
    · exact htarget
  directive := hs.directives relation.name

theorem isPlain_argumentField {operation : Operation} (hs : g.IsSplittable model)
    (hw : model.WellFormed) (hoperation : operation ∈ g.operations model) {argument : Property}
    (hargument : argument ∈ operation.arguments) {field : FieldLine}
    (h : IsArgumentField g argument field) : field.IsPlain where
  name := by
    rw [h.name]
    exact hw.arguments operation (List.mem_filter.mp hoperation).1 argument hargument
  arguments := by simp [h.arguments]
  type := isNamed_sdlType (hs.arguments operation hoperation argument hargument) h.type
  directive := h.directive

theorem isPlain_mutation (hs : g.IsSplittable model) (hw : model.WellFormed)
    {operation : Operation} (hoperation : operation ∈ g.operations model) {field : FieldLine}
    (h : IsMutation g operation field) : field.IsPlain where
  name := by
    rw [h.name]
    exact hw.operations operation (List.mem_filter.mp hoperation).1
  arguments := by
    rw [h.arguments]
    split
    · simp
    · rename_i hne
      have hinput := hs.inputs operation hoperation fun hnil => hne hnil
      simpa using ⟨(by decide : isIdentifier "data"), hinput⟩
  type := by
    obtain ⟨type, htype, hfield⟩ := h.type
    rw [hfield]
    exact isNamed_optional (isNamed_sdlType (hs.results operation hoperation) htype)
  directive := h.directive

theorem isPlain_object (hs : g.IsSplittable model) (hw : model.WellFormed) {object : Block}
    (h : g.objectType model = .ok object) : object.IsPlain := by
  obtain ⟨hkind, hname, fields, hproperties, hfields⟩ := objectType_eq_ok h
  refine ⟨?_, ?_, ?_, ?_, ?_⟩
  · rw [hname]
    exact hw.name
  · rw [hname]
    exact fun _ => hs.root
  · rw [hfields]
    intro hnil
    rw [List.append_eq_nil_iff, List.map_eq_nil_iff] at hnil
    -- a type has a field for each property and each relation
    rcases hs.exposes with hne | hne
    · rw [hnil.1] at hproperties
      exact hne (List.forall₂_nil_right_iff.mp hproperties)
    · exact hne hnil.2
  · rw [hfields, List.forall_mem_append]
    refine ⟨forall_of_forall₂ hproperties fun property hproperty field =>
      isPlain_propertyField hs hw hproperty, fun field hfield => ?_⟩
    obtain ⟨relation, hrelation, rfl⟩ := List.mem_map.mp hfield
    exact isPlain_relationField hs hw hrelation
  · intro hinput
    rw [hkind] at hinput
    cases hinput

theorem isPlain_operationInput (hs : g.IsSplittable model) (hw : model.WellFormed)
    {operation : Operation} (hoperation : operation ∈ g.operations model) {block : Block}
    (h : g.operationInput model operation = .ok (some block)) : block.IsPlain := by
  obtain ⟨hkind, hname, hne, hfields⟩ := operationInput_eq_some h
  refine ⟨?_, ?_, ?_, ?_, ?_⟩
  · rw [hname]
    exact hs.inputs operation hoperation hne
  · intro htype
    rw [hkind] at htype
    cases htype
  · intro hnil
    rw [hnil] at hfields
    exact hne (List.forall₂_nil_right_iff.mp hfields)
  · exact forall_of_forall₂ hfields fun argument hargument field =>
      isPlain_argumentField hs hw hoperation hargument
  · exact fun _ => forall_of_forall₂ hfields fun argument _ field hfield => hfield.arguments

/-- A name that goes on with another text is none that ends in a different way. -/
theorem append_ne {name other whole : String} (h : ¬ other.toList <:+ whole.toList) :
    name ++ other ≠ whole := by
  rintro rfl
  exact h ⟨name.toList, by rw [String.toList_append]⟩

theorem isPlain_countType (hw : model.WellFormed) : (countType model).IsPlain where
  name := isIdentifier_append hw.name (by decide)
  root _ := ⟨append_ne (by decide), append_ne (by decide)⟩
  ne_nil := by simp [countType]
  fields := by
    simp only [countType, List.forall_mem_singleton]
    exact ⟨by decide, by simp, (by decide : isIdentifier "Int"), rfl⟩
  arguments h := by cases h

theorem isNamed_operand {idScalar : IdScalar} (kind : ScalarKind) (operator : Operator) :
    (operator.operand (kind.sdlName idScalar)).IsNamed := by
  unfold Operator.operand
  split
  · exact kind.isIdentifier_sdlName idScalar
  · exact kind.isIdentifier_sdlName idScalar

theorem isNamePart_operatorName (operator : Operator) :
    ∀ c ∈ ("_" ++ operator.name).toList, isNamePart c := by
  cases operator <;> decide

theorem isPlain_filterFields (hw : model.WellFormed) :
    ∀ field ∈ g.filterFields model, field.IsPlain ∧ field.arguments = [] := by
  intro field hfield
  obtain ⟨property, hproperty, hfield⟩ := List.mem_flatMap.mp hfield
  split at hfield
  · cases hfield
  · rename_i kind hkind
    obtain ⟨operator, -, rfl⟩ := List.mem_map.mp hfield
    have hname := hw.properties property (List.mem_filter.mp hproperty).1
    refine ⟨⟨?_, by simp, isNamed_operand kind operator, rfl⟩, rfl⟩
    have := isIdentifier_append hname (isNamePart_operatorName operator)
    rwa [← String.append_assoc] at this

theorem isPlain_filterInput (hw : model.WellFormed) {block : Block}
    (h : g.filterInput model = some block) : block.IsPlain := by
  unfold filterInput at h
  split at h
  · cases h
  · cases h
    have hname : isIdentifier (Naming.filterType model.name) :=
      isIdentifier_append hw.name (by decide)
    have hcombined : ∀ name : String, isIdentifier name → FieldLine.IsPlain
        { name := name, type := .list (.named (Naming.filterType model.name) true) false } :=
      fun name h => ⟨h, by simp, hname, rfl⟩
    have hfields := isPlain_filterFields (g := g) hw
    refine ⟨hname, fun h => (by cases h), by simp, ?_, fun _ => ?_⟩
    · simp only [List.forall_mem_cons]
      exact ⟨hcombined _ (by decide), hcombined _ (by decide), fun field hfield =>
        (hfields field hfield).1⟩
    · simp only [List.forall_mem_cons]
      exact ⟨trivial, trivial, fun field hfield => (hfields field hfield).2⟩

theorem property_of_mem_identifiers {identifier : Property × ScalarKind}
    (h : identifier ∈ g.identifiers model) : identifier.1 ∈ g.properties model := by
  obtain ⟨property, hproperty, hkind⟩ := List.mem_filterMap.mp h
  obtain ⟨kind, -, rfl⟩ := Option.map_eq_some_iff.mp hkind
  exact (List.mem_filter.mp hproperty).1

theorem isPlain_uniqueFilterInput (hw : model.WellFormed) {block : Block}
    (h : g.uniqueFilterInput model = some block) : block.IsPlain := by
  unfold uniqueFilterInput at h
  split at h
  · cases h
  · rename_i hne
    cases h
    refine ⟨isIdentifier_append hw.name (by decide), fun h => (by cases h), ?_, ?_, fun _ => ?_⟩
    · simpa using fun hnil => hne hnil
    · intro field hfield
      obtain ⟨⟨property, kind⟩, hidentifier, rfl⟩ := List.mem_map.mp hfield
      have hproperty := property_of_mem_identifiers hidentifier
      exact ⟨hw.properties property (List.mem_filter.mp hproperty).1, by simp,
        kind.isIdentifier_sdlName _, rfl⟩
    · intro field hfield
      obtain ⟨_, -, rfl⟩ := List.mem_map.mp hfield
      rfl

theorem isPlain_filterArgument (hw : model.WellFormed) (withFilter : Bool) :
    ∀ argument ∈ filterArgument model withFilter,
      isIdentifier argument.1 ∧ argument.2.IsNamed := by
  cases withFilter with
  | false => simp [filterArgument]
  | true =>
    simp only [filterArgument, if_true, List.forall_mem_singleton]
    exact ⟨by decide, @isIdentifier_append model.name _ hw.name (by decide)⟩

theorem isPlain_lookupField (hs : g.IsSplittable model) (hw : model.WellFormed)
    {field : FieldLine} (hfield : field ∈ g.lookupFields model)
    (hname : isIdentifier field.name) : field.IsPlain := by
  unfold lookupFields at hfield
  split at hfield
  · cases hfield
  · split at hfield
    · rw [List.mem_singleton] at hfield
      subst hfield
      refine ⟨hname, ?_, hw.name, rfl⟩
      simp only [List.forall_mem_singleton]
      exact ⟨by decide, @isIdentifier_append model.name _ hw.name (by decide)⟩
    · rename_i hlookup
      obtain ⟨⟨property, kind⟩, hidentifier, rfl⟩ := List.mem_map.mp hfield
      have htype := kind.isIdentifier_sdlName g.config.idScalar
      have hargument := hs.lookups hlookup _ hidentifier
      refine ⟨hname, ?_, hw.name, rfl⟩
      simp only [List.forall_mem_singleton, TypeRef.IsNamed]
      exact ⟨hargument, htype⟩

theorem isPlain_queryFields (hs : g.IsSplittable model) (hw : model.WellFormed)
    (withFilter : Bool) : ∀ field ∈ g.queryFields model withFilter, field.IsPlain := by
  have hnames : ∀ field ∈ g.queryFields model withFilter, isIdentifier field.name := by
    intro field hfield
    refine hs.queries _ ?_
    rw [← queryFields_name withFilter]
    exact List.mem_map_of_mem hfield
  have hfilter := isPlain_filterArgument hw withFilter
  have hcount : isIdentifier (Naming.metaType model.name) := isIdentifier_append hw.name (by decide)
  have hint : isIdentifier "Int" := by decide
  have hpaging :
      ∀ argument ∈ [("offset", TypeRef.named "Int" false), ("limit", .named "Int" false)],
      isIdentifier argument.1 ∧ argument.2.IsNamed := by
    simp only [List.forall_mem_cons, List.not_mem_nil, false_implies, implies_true, and_true,
      TypeRef.IsNamed]
    exact ⟨⟨by decide, hint⟩, by decide, hint⟩
  simp only [queryFields, List.forall_mem_cons] at hnames ⊢
  obtain ⟨hcollection, hmeta, hlookups⟩ := hnames
  refine ⟨⟨hcollection, ?_, hw.name, rfl⟩, ⟨hmeta, hfilter, hcount, rfl⟩, fun field hfield => ?_⟩
  · exact List.forall_mem_append.mpr ⟨hpaging, hfilter⟩
  · exact isPlain_lookupField hs hw hfield (hlookups field hfield)

/-- All blocks of a model are plain. -/
theorem isPlain_blocks (hs : g.IsSplittable model) {c : Composition}
    (hc : IsComposition g model c) : ∀ block ∈ c.blocks, block.IsPlain := by
  have hw := hc.wellFormed
  refine hc.forall_blocks ?_ ?_ (isPlain_countType hw) ?_ ?_
  · exact fun object hobject => isPlain_object hs hw hobject
  · exact fun operation hoperation block hinput => isPlain_operationInput hs hw hoperation hinput
  · exact fun block hfilter => isPlain_filterInput hw hfilter
  · exact fun block hfilter => isPlain_uniqueFilterInput hw hfilter

/-- The SDL of a model has definitions and fields in its sections. -/
theorem areSections_fragment (hs : g.IsSplittable model) {c : Composition}
    (hc : IsComposition g model c) : AreSections c.fragment where
  definitions definition hdefinition := by
    obtain ⟨block, hblock, rfl⟩ := List.mem_map.mp hdefinition
    exact isDefinition_text (isPlain_blocks hs hc block hblock)
  queries := by
    have hplain := isPlain_queryFields hs hc.wellFormed c.filter.isSome
    rw [← hc.queries] at hplain
    refine .inr (areFields_text ?_ hplain)
    rw [hc.queries]
    simp [queryFields]
  mutations := by
    have hplain : ∀ field ∈ c.mutations, field.IsPlain := forall_of_forall₂ hc.mutations
      fun operation hoperation field => isPlain_mutation hs hc.wellFormed hoperation
    by_cases hnil : c.mutations = []
    · exact .inl (by rw [Composition.fragment, hnil]; rfl)
    · exact .inr (areFields_text hnil hplain)

theorem isEmpty_fragment (c : Composition) : c.fragment.isEmpty = false := by
  simp [Fragment.isEmpty, Composition.fragment, Composition.blocks]

/-- **Generated SDL is read back.**  The document of a model is split into the sections
that it was written from, whatever name they are given. -/
theorem parse_composed (hs : g.IsSplittable model) {c : Composition}
    (hc : g.compose model = .ok c) (name : String) :
    Fragment.parse name c.fragment.render = .ok { c.fragment with name := name } := by
  have hsections := areSections_fragment hs (isComposition_of_compose hc)
  exact parse_render hsections (isEmpty_fragment c) name

/-- A model with a member of each kind, among them lists of lists. -/
def voyage : Model where
  name := "Voyage"
  properties := [⟨"id", .scalar .uniqueIdentifier { isPrimaryKey := true }⟩,
    ⟨"ports", .array (.array (.scalar .string {}) { allowNull := true }) {}⟩]
  relations := [{ name := "crew", model := "Sailor", cardinality := .multiple }]
  operations := [{ name := "board", arguments := [⟨"cabins", .array (.reference "Cabin" {}) {}⟩]
                   returns := .imported "Ticket" {} }]

/-- A generator with a query for each property that identifies a record. -/
def byIdentifier : Generator where
  config := { lookup := .perIdentifier }

theorem isSplittable_voyage : byIdentifier.IsSplittable voyage := by
  refine ⟨fun _ => rfl, .inl (by decide), by decide, ?_, ?_, ?_, by decide +kernel,
    by decide +kernel, by decide +kernel⟩
  all_goals simp [properties, operations, byIdentifier, voyage, PropertyType.IsNamed]
  all_goals decide

theorem parse_composed_voyage : byIdentifier.IsSplittable voyage ∧
    ∃ c, byIdentifier.compose voyage = .ok c ∧
      Fragment.parse "voyage.graphql" c.fragment.render =
        .ok { c.fragment with name := "voyage.graphql" } :=
  ⟨isSplittable_voyage, _, rfl, parse_composed isSplittable_voyage rfl "voyage.graphql"⟩

end Generator
end Generate
end EntitySdl
