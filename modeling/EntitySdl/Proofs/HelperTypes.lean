import EntitySdl.Proofs.Collisions
import EntitySdl.Proofs.FragmentTexts

/-! # Helper types and the fields that use them

Beside its object type, a model defines helper types: the type of its count, its filters
and the inputs of its operations.  They come from other functions than the root fields
that mention them, under conditions that are computed apart.  In the fragment of a model a
helper type is defined exactly when a root field takes an argument of it, and no input is
empty.
-/
namespace EntitySdl

namespace Sdl

/-- A fragment has a definition with a keyword and a name. -/
def Fragment.Defines (fragment : Fragment) (keyword name : String) : Prop :=
  ∃ definition ∈ fragment.definitions,
    keywordOf definition = keyword ∧ declaredName definition = name

/-- A line has an argument of a type. -/
def Takes (line argument type : String) : Prop := (argument, type) ∈ argumentsOf line

/-- A field has an argument with a type of that text. -/
def FieldLine.Takes (field : FieldLine) (argument type : String) : Prop :=
  ∃ taken ∈ field.arguments, taken.1 = argument ∧ taken.2.text = type

theorem DeclaresField.takes_iff {line argument type : String} {field : FieldLine}
    (h : DeclaresField line field) : Takes line argument type ↔ field.Takes argument type := by
  rw [Takes, h.arguments, FieldLine.Takes, List.mem_map]
  simp only [Prod.mk.injEq]

theorem BlockKind.keyword_injective : Function.Injective BlockKind.keyword := by
  intro kind other h
  cases kind <;> cases other <;> first | rfl | exact absurd h (by decide)

end Sdl

namespace Generate

open Sdl

/-- A composition defines a type or an input of a name. -/
def Composition.HasBlock (c : Composition) (kind : BlockKind) (name : String) : Prop :=
  ∃ block ∈ c.blocks, block.kind = kind ∧ block.name = name

/-- The definitions of a fragment are those of the blocks. -/
theorem Composition.HasTexts.defines_iff {c : Composition} (h : c.HasTexts) (kind : BlockKind)
    {name : String} : c.fragment.Defines kind.keyword name ↔ c.HasBlock kind name := by
  constructor
  · rintro ⟨definition, hdefinition, hkeyword, hname⟩
    obtain ⟨block, hblock, hdeclares⟩ := h.exists_block hdefinition
    refine ⟨block, hblock, ?_, hdeclares.isCalled.symm.trans hname⟩
    exact BlockKind.keyword_injective (hdeclares.startsWith.symm.trans hkeyword)
  · rintro ⟨block, hblock, rfl, rfl⟩
    obtain ⟨definition, hdefinition, hdeclares⟩ := h.exists_declares hblock
    exact ⟨definition, hdefinition, hdeclares.startsWith, hdeclares.isCalled⟩

theorem getLast?_required : (TypeRef.mark true).toList.getLast? = some '!' := by decide

theorem Naming.uniqueFilterType_ne_filterType (model : String) :
    Naming.uniqueFilterType model ≠ Naming.filterType model := by
  intro h
  have hlength := congrArg (fun text : String => text.toList.length) h
  simp [Naming.uniqueFilterType, Naming.filterType] at hlength

namespace Generator

variable {g : Generator} {model : Model} {c : Composition} {block : Block}

/-! ### Filters -/

theorem takes_filter_iff {field : FieldLine} {others : List (String × TypeRef)} {withFilter : Bool}
    (h : field.arguments = others ++ filterArgument model withFilter)
    (hothers : ∀ argument ∈ others, argument.1 ≠ "filter") :
    field.Takes "filter" (Naming.filterType model.name) ↔ withFilter := by
  rw [FieldLine.Takes, h]
  constructor
  · rintro ⟨taken, htaken, hname, -⟩
    rcases List.mem_append.mp htaken with htaken | htaken
    · exact absurd hname (hothers taken htaken)
    · cases withFilter with
      | false => cases htaken
      | true => rfl
  · rintro rfl
    refine ⟨("filter", .named (Naming.filterType model.name) false), ?_, rfl, String.append_empty⟩
    exact List.mem_append_right _ (List.mem_singleton_self _)

/-- A lookup takes a filter for a single record when there is an identifying property and
lookups are made that way. -/
theorem exists_lookup_where_iff :
    (∃ field ∈ g.lookupFields model, field.name = Naming.singleQuery model.name ∧
        field.Takes "where" (Naming.uniqueFilterType model.name)) ↔
      g.config.lookup = .uniqueFilter ∧ (g.uniqueFilterInput model).isSome := by
  unfold lookupFields uniqueFilterInput
  cases g.identifiers model with
  | nil => simp
  | cons identifier rest =>
    cases g.config.lookup with
    | uniqueFilter => simp [FieldLine.Takes, TypeRef.text, TypeRef.mark]
    | perIdentifier =>
      refine iff_of_false ?_ (by simp)
      rintro ⟨field, hfield, -, taken, htaken, -, htype⟩
      obtain ⟨⟨property, kind⟩, -, rfl⟩ := List.mem_map.mp hfield
      rw [List.mem_singleton] at htaken
      subst htaken
      -- such a lookup takes the value of a property, which is never null
      exact append_ne_append getLast?_required getLast?_uniqueFilter (by decide) htype

/-- The queries for many records and for their number take no filter for a single record. -/
theorem exists_query_where_iff {withFilter : Bool} :
    (∃ field ∈ g.queryFields model withFilter, field.name = Naming.singleQuery model.name ∧
        field.Takes "where" (Naming.uniqueFilterType model.name)) ↔
      ∃ field ∈ g.lookupFields model, field.name = Naming.singleQuery model.name ∧
        field.Takes "where" (Naming.uniqueFilterType model.name) := by
  have hnone : ∀ taken ∈ filterArgument model withFilter, taken.1 ≠ "where" := by
    cases withFilter <;> simp [filterArgument]
  have hpaging : ∀ taken ∈ [("offset", TypeRef.named "Int" false), ("limit", .named "Int" false)],
      taken.1 ≠ "where" := by
    simp
  rw [queryFields, List.exists_mem_cons_iff, List.exists_mem_cons_iff]
  constructor
  · rintro (⟨-, taken, htaken, hname, -⟩ | ⟨-, taken, htaken, hname, -⟩ | h)
    · rcases List.mem_append.mp htaken with htaken | htaken
      · exact absurd hname (hpaging taken htaken)
      · exact absurd hname (hnone taken htaken)
    · exact absurd hname (hnone taken htaken)
    · exact h
  · exact fun h => .inr (.inr h)

namespace IsComposition

variable (h : IsComposition g model c)
include h

theorem filter_eq_some (hblock : c.filter = some block) :
    block.kind = .input ∧ block.name = Naming.filterType model.name ∧ block.fields ≠ [] := by
  rw [h.filter] at hblock
  split at hblock
  · exact filterInput_eq_some hblock
  · cases hblock

theorem uniqueFilter_eq_some (hblock : c.uniqueFilter = some block) :
    block.kind = .input ∧ block.name = Naming.uniqueFilterType model.name ∧
      block.fields ≠ [] := by
  rw [h.uniqueFilter] at hblock
  split at hblock
  · exact uniqueFilterInput_eq_some hblock
  · cases hblock

theorem uniqueFilter_isSome_iff : c.uniqueFilter.isSome ↔
    g.config.lookup = .uniqueFilter ∧ (g.uniqueFilterInput model).isSome := by
  rw [h.uniqueFilter]
  cases g.config.lookup <;> simp

/-- The input of an operation has its arguments for fields. -/
theorem operationInput_cases : ∀ block ∈ c.operationInputs, block.kind = .input ∧
    (∃ operation, block.name = Naming.argsType operation) ∧ block.fields ≠ [] := by
  refine h.forall_operationInputs fun operation _ block hinput => ?_
  obtain ⟨hkind, hname, hne, hfields⟩ := operationInput_eq_some hinput
  refine ⟨hkind, ⟨operation.name, hname⟩, fun hnil => hne ?_⟩
  rw [hnil] at hfields
  exact List.forall₂_nil_right_iff.mp hfields

/-- What is an input: one for the arguments of an operation, or one of the filters. -/
theorem input_cases (hblock : block ∈ c.blocks) (hkind : block.kind = .input) :
    block ∈ c.operationInputs ∨ c.filter = some block ∨ c.uniqueFilter = some block := by
  obtain ⟨hobject, -⟩ := objectType_eq_ok h.object
  simp only [Composition.blocks, List.cons_append, List.mem_cons, List.mem_append,
    Option.mem_toList] at hblock
  rcases hblock with rfl | hblock | rfl | hblock
  · rw [hobject] at hkind
    cases hkind
  · exact .inl hblock
  · rw [h.count] at hkind
    cases hkind
  · exact .inr hblock

theorem input_fields_ne_nil (hblock : block ∈ c.blocks) (hkind : block.kind = .input) :
    block.fields ≠ [] := by
  rcases h.input_cases hblock hkind with hinput | hfilter | hunique
  · exact (h.operationInput_cases _ hinput).2.2
  · exact (h.filter_eq_some hfilter).2.2
  · exact (h.uniqueFilter_eq_some hunique).2.2

/-- No other input is called like the filter. -/
theorem hasBlock_filter_iff :
    c.HasBlock .input (Naming.filterType model.name) ↔ c.filter.isSome := by
  constructor
  · rintro ⟨block, hblock, hkind, hname⟩
    rcases h.input_cases hblock hkind with hinput | hfilter | hunique
    · obtain ⟨operation, hargs⟩ := (h.operationInput_cases _ hinput).2.1
      exact absurd (hargs.symm.trans hname)
        (append_ne_append getLast?_args getLast?_filter (by decide))
    · rw [hfilter]
      rfl
    · exact absurd ((h.uniqueFilter_eq_some hunique).2.1.symm.trans hname)
        (Naming.uniqueFilterType_ne_filterType _)
  · intro hsome
    obtain ⟨block, hblock⟩ := Option.isSome_iff_exists.mp hsome
    obtain ⟨hkind, hname, -⟩ := h.filter_eq_some hblock
    exact ⟨block, by simp [Composition.blocks, hblock], hkind, hname⟩

/-- No other input is called like the filter for a single record. -/
theorem hasBlock_uniqueFilter_iff :
    c.HasBlock .input (Naming.uniqueFilterType model.name) ↔ c.uniqueFilter.isSome := by
  constructor
  · rintro ⟨block, hblock, hkind, hname⟩
    rcases h.input_cases hblock hkind with hinput | hfilter | hunique
    · obtain ⟨operation, hargs⟩ := (h.operationInput_cases _ hinput).2.1
      exact absurd (hargs.symm.trans hname)
        (append_ne_append getLast?_args getLast?_uniqueFilter (by decide))
    · exact absurd (hname.symm.trans (h.filter_eq_some hfilter).2.1)
        (Naming.uniqueFilterType_ne_filterType _)
    · rw [hunique]
      rfl
  · intro hsome
    obtain ⟨block, hblock⟩ := Option.isSome_iff_exists.mp hsome
    obtain ⟨hkind, hname, -⟩ := h.uniqueFilter_eq_some hblock
    exact ⟨block, by simp [Composition.blocks, hblock], hkind, hname⟩

end IsComposition

/-! ### Inputs of operations -/

/-- A mutation takes its data in the input of its operation, if that has arguments. -/
theorem IsMutation.takes_data_iff {operation : Operation} {field : FieldLine} {name : String}
    (h : IsMutation g operation field) :
    field.Takes "data" (name ++ "!") ↔
      operation.arguments ≠ [] ∧ name = Naming.argsType operation.name := by
  rw [FieldLine.Takes, h.arguments]
  cases operation.arguments with
  | nil => simp
  | cons argument rest =>
    have htext : (TypeRef.named (Naming.argsType operation.name) true).text =
        Naming.argsType operation.name ++ "!" := rfl
    simp [htext, (append_right_injective "!").eq_iff, eq_comm]

theorem IsMutation.exists_takes_data_iff {operation : Operation} {field : FieldLine}
    (h : IsMutation g operation field) :
    (∃ name, field.Takes "data" (name ++ "!")) ↔ operation.arguments ≠ [] := by
  simp only [h.takes_data_iff, exists_and_left, exists_eq, and_true]

theorem exists_operationInput_iff (h : IsComposition g model c) {name : String} :
    (∃ block ∈ c.operationInputs, block.name = name) ↔
      ∃ operation ∈ g.operations model, operation.arguments ≠ [] ∧
        name = Naming.argsType operation.name := by
  obtain ⟨inputs, hinputs, hc⟩ := h.operationInputs
  rw [← List.mem_map, hc, operationInputs_name hinputs, List.mem_map]
  simp only [List.mem_filter, Bool.not_eq_true', List.isEmpty_eq_false_iff, and_assoc, ne_eq,
    @eq_comm _ name]

theorem exists_mutation_iff {operations : List Operation} {fields : List FieldLine}
    (h : List.Forall₂ (IsMutation g) operations fields) {name : String} :
    (∃ field ∈ fields, field.Takes "data" (name ++ "!")) ↔
      ∃ operation ∈ operations, operation.arguments ≠ [] ∧
        name = Naming.argsType operation.name := by
  induction h with
  | nil => simp
  | cons hfield _ ih => simp only [List.exists_mem_cons_iff, hfield.takes_data_iff, ih]

/-- An operation has its input, and nothing else is an input but the filters. -/
theorem IsComposition.hasBlock_input_iff (h : IsComposition g model c) {name : String} :
    (c.HasBlock .input name ∧ name ≠ Naming.filterType model.name ∧
        name ≠ Naming.uniqueFilterType model.name) ↔
      ∃ block ∈ c.operationInputs, block.name = name := by
  constructor
  · rintro ⟨⟨block, hblock, hkind, rfl⟩, hfilter, hunique⟩
    rcases h.input_cases hblock hkind with hinput | hblock | hblock
    · exact ⟨block, hinput, rfl⟩
    · exact absurd (h.filter_eq_some hblock).2.1 hfilter
    · exact absurd (h.uniqueFilter_eq_some hblock).2.1 hunique
  · rintro ⟨block, hblock, rfl⟩
    obtain ⟨hkind, ⟨operation, hname⟩, -⟩ := h.operationInput_cases _ hblock
    refine ⟨⟨block, by simp [Composition.blocks, hblock], hkind, rfl⟩, ?_, ?_⟩
    · rw [hname]
      exact append_ne_append getLast?_args getLast?_filter (by decide)
    · rw [hname]
      exact append_ne_append getLast?_args getLast?_uniqueFilter (by decide)

/-! ### Lines -/

/-- What can be read off the lines of fields is found among the fields. -/
theorem exists_line_iff {lines : List String} {fields : List FieldLine}
    (h : List.Forall₂ DeclaresField lines fields) {p : String → Prop} {q : FieldLine → Prop}
    (hpq : ∀ line field, DeclaresField line field → (p line ↔ q field)) :
    (∃ line ∈ lines, p line) ↔ ∃ field ∈ fields, q field := by
  induction h with
  | nil => simp
  | cons hfield _ ih => rw [List.exists_mem_cons_iff, List.exists_mem_cons_iff, hpq _ _ hfield, ih]

section Lines

variable (hparts : IsComposition g model c) (htexts : c.HasTexts)
include hparts htexts

/-- The queries for many records and for their number take the filter that there is. -/
theorem filter_lines : ∃ collection count lookups,
    c.fragment.queryFields = collection :: count :: lookups ∧
      headOf collection = Naming.collectionQuery model.name ∧
      headOf count = Naming.metaQuery model.name ∧
      (c.filter.isSome ↔ Takes collection "filter" (Naming.filterType model.name)) ∧
      (c.filter.isSome ↔ Takes count "filter" (Naming.filterType model.name)) := by
  have hqueries := htexts.queries
  rw [hparts.queries, queryFields] at hqueries
  obtain ⟨collection, _, hcollection, hqueries, hlines⟩ := List.forall₂_cons_right_iff.mp hqueries
  obtain ⟨count, lookups, hcount, -, rfl⟩ := List.forall₂_cons_right_iff.mp hqueries
  refine ⟨collection, count, lookups, hlines, hcollection.name, hcount.name, ?_, ?_⟩
  · rw [hcollection.takes_iff]
    exact (takes_filter_iff rfl (by simp)).symm
  · rw [hcount.takes_iff]
    exact (takes_filter_iff (List.nil_append _).symm (by simp)).symm

/-- The query for a single record takes the filter for one if there is one. -/
theorem uniqueFilter_line_iff :
    (∃ line ∈ c.fragment.queryFields, headOf line = Naming.singleQuery model.name ∧
        Takes line "where" (Naming.uniqueFilterType model.name)) ↔ c.uniqueFilter.isSome := by
  have hlines : (∃ line ∈ c.fragment.queryFields, headOf line = Naming.singleQuery model.name ∧
      Takes line "where" (Naming.uniqueFilterType model.name)) ↔
        ∃ field ∈ c.queries, field.name = Naming.singleQuery model.name ∧
          field.Takes "where" (Naming.uniqueFilterType model.name) :=
    exists_line_iff htexts.queries fun _ _ hline => by rw [hline.name, hline.takes_iff]
  rw [hlines, hparts.queries, exists_query_where_iff, exists_lookup_where_iff,
    hparts.uniqueFilter_isSome_iff]

/-- Mutations take the inputs of operations. -/
theorem operationInput_line_iff {name : String} :
    (∃ line ∈ c.fragment.mutationFields, Takes line "data" (name ++ "!")) ↔
      ∃ block ∈ c.operationInputs, block.name = name := by
  rw [exists_line_iff htexts.mutations fun _ _ hline => hline.takes_iff,
    exists_mutation_iff hparts.mutations, exists_operationInput_iff hparts]

/-- The definition of an input has a line for a field. -/
theorem declares_input {definition : String} (hdefinition : definition ∈ c.fragment.definitions)
    (hkeyword : keywordOf definition = "input") :
    ∃ field fields, Declares definition "input" (declaredName definition) (field :: fields) := by
  obtain ⟨block, hblock, hdeclares⟩ := htexts.exists_block hdefinition
  have hkind : block.kind = .input :=
    BlockKind.keyword_injective (hdeclares.startsWith.symm.trans hkeyword)
  obtain ⟨field, fields, hfields⟩ :=
    List.exists_cons_of_ne_nil (hparts.input_fields_ne_nil hblock hkind)
  rw [hkind, Block.fieldNames, hfields, List.map_cons, ← hdeclares.isCalled] at hdeclares
  exact ⟨field.name, fields.map FieldLine.name, hdeclares⟩

end Lines

/-- The line of a mutation tells whether its operation has arguments. -/
theorem mutation_lines {operations : List Operation} {fields : List FieldLine}
    {lines : List String} (h : List.Forall₂ (IsMutation g) operations fields)
    (hlines : List.Forall₂ DeclaresField lines fields) :
    List.Forall₂ (fun operation line => headOf line = operation.name ∧
      ((∃ name, Takes line "data" (name ++ "!")) ↔ operation.arguments ≠ []))
      operations lines := by
  induction h generalizing lines with
  | nil =>
    cases hlines
    exact .nil
  | cons hfield _ ih =>
    cases hlines with
    | cons hline hlines =>
      refine .cons ⟨hline.name.trans hfield.name, ?_⟩ (ih hlines)
      simp only [hline.takes_iff]
      exact hfield.exists_takes_data_iff

/-- Every helper type of a fragment is defined exactly when a root field uses it. -/
structure HelpersInUse (g : Generator) (model : Model) (fragment : Fragment) : Prop where
  /-- The object type is defined. -/
  object : fragment.Defines "type" model.name
  /-- So is the type of the count. -/
  count : fragment.Defines "type" (model.name ++ "Meta")
  /-- The filter is defined when the queries for many records and for their number take
  it, and then both do. -/
  filter : ∃ collection count lookups, fragment.queryFields = collection :: count :: lookups ∧
    headOf collection = Naming.collectionQuery model.name ∧
    headOf count = Naming.metaQuery model.name ∧
    (fragment.Defines "input" (model.name ++ "Filter") ↔
      Takes collection "filter" (model.name ++ "Filter")) ∧
    (fragment.Defines "input" (model.name ++ "Filter") ↔
      Takes count "filter" (model.name ++ "Filter"))
  /-- The filter for a single record is defined when the query for one takes it. -/
  uniqueFilter : fragment.Defines "input" (model.name ++ "UniqueFilter") ↔
    ∃ line ∈ fragment.queryFields, headOf line = Naming.singleQuery model.name ∧
      Takes line "where" (model.name ++ "UniqueFilter")
  /-- The input of an operation, which is any other input, is defined when a mutation takes
  it. -/
  operationInputs : ∀ name, (fragment.Defines "input" name ∧ name ≠ model.name ++ "Filter" ∧
      name ≠ model.name ++ "UniqueFilter") ↔
    ∃ line ∈ fragment.mutationFields, Takes line "data" (name ++ "!")
  /-- A mutation takes one when its operation has arguments. -/
  mutations : List.Forall₂ (fun operation line => headOf line = operation.name ∧
    ((∃ name, Takes line "data" (name ++ "!")) ↔ operation.arguments ≠ []))
    (g.operations model) fragment.mutationFields
  /-- No input is empty. -/
  inputs : ∀ definition ∈ fragment.definitions, keywordOf definition = "input" →
    ∃ field fields, Declares definition "input" (declaredName definition) (field :: fields)

/-- **Helper types are used exactly when they are defined.** -/
theorem helpers_in_use (h : g.compose model = .ok c) : HelpersInUse g model c.fragment := by
  have hparts := isComposition_of_compose h
  have htexts := hasTexts_of_compose h
  obtain ⟨hobject, hname, -⟩ := objectType_eq_ok hparts.object
  have htype : ∀ name, c.fragment.Defines "type" name ↔ c.HasBlock .type name :=
    fun name => htexts.defines_iff .type
  have hinput : ∀ name, c.fragment.Defines "input" name ↔ c.HasBlock .input name :=
    fun name => htexts.defines_iff .input
  refine ⟨?_, ?_, ?_, ?_, ?_, ?_, ?_⟩
  · exact (htype _).mpr ⟨c.object, by simp [Composition.blocks], hobject, hname⟩
  · refine (htype _).mpr ⟨c.count, by simp [Composition.blocks], ?_⟩
    rw [hparts.count]
    exact ⟨rfl, rfl⟩
  · have hfilter := (hinput _).trans hparts.hasBlock_filter_iff
    obtain ⟨collection, count, lookups, hlines, hcollection, hcount, htakes, htakes'⟩ :=
      filter_lines hparts htexts
    exact ⟨collection, count, lookups, hlines, hcollection, hcount, hfilter.trans htakes,
      hfilter.trans htakes'⟩
  · have hunique := (hinput _).trans hparts.hasBlock_uniqueFilter_iff
    exact hunique.trans (uniqueFilter_line_iff hparts htexts).symm
  · intro name
    rw [hinput, operationInput_line_iff hparts htexts]
    exact hparts.hasBlock_input_iff
  · exact mutation_lines hparts.mutations htexts.mutations
  · intro definition hdefinition hkeyword
    exact declares_input hparts htexts hdefinition hkeyword

/-- A model with properties to filter by and to look up, and with operations of both
sorts. -/
def parcel : Model where
  name := "Parcel"
  properties := [⟨"id", .scalar .uniqueIdentifier { isPrimaryKey := true }⟩,
    ⟨"label", .scalar .binary { unique := true }⟩, ⟨"weight", .scalar .decimal {}⟩]
  operations := [{ name := "weigh", arguments := [⟨"scale", .reference "Scale" {}⟩]
                   returns := .scalar .decimal {} },
    { name := "discard", returns := .scalar .boolean { allowNull := true } }]

theorem helpers_in_use_parcel : ∃ c, ({} : Generator).compose parcel = .ok c ∧
    HelpersInUse {} parcel c.fragment ∧
    c.fragment.definitions.map declaredName =
      ["Parcel", "WeighArgs", "ParcelMeta", "ParcelFilter", "ParcelUniqueFilter"] ∧
    c.fragment.mutationFields.map argumentsOf = [[("data", "WeighArgs!")], []] :=
  ⟨_, rfl, helpers_in_use rfl, by decide +kernel, by decide +kernel⟩

end Generator
end Generate
end EntitySdl
