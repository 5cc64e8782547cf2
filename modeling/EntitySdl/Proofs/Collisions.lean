import EntitySdl.Proofs.FragmentTexts
import EntitySdl.Proofs.MergedOutput
import EntitySdl.Proofs.WellFormed
import Mathlib.Data.List.Nodup

/-! # Names that two models share

The rules for schemas compare names as they are declared, not the names that are
derived from them.  Two models of a schema may therefore define a type of one
name, or have root fields of one name.  For types, all the ways in which this can
happen follow from the endings of derived names.
-/
namespace EntitySdl
namespace Generate

namespace Composition

/-- The names of the types and inputs that are defined. -/
def typeNames (c : Composition) : List String := c.blocks.map Sdl.Block.name

/-- The names of the queries. -/
def queryNames (c : Composition) : List String := c.queries.map Sdl.FieldLine.name

/-- The names of the mutations. -/
def mutationNames (c : Composition) : List String := c.mutations.map Sdl.FieldLine.name

end Composition

/-- Texts with different last characters differ, whatever stands before. -/
theorem append_ne_append {left right first second : String} {c d : Char}
    (hfirst : first.toList.getLast? = some c) (hsecond : second.toList.getLast? = some d)
    (h : c ≠ d) : left ++ first ≠ right ++ second := by
  intro heq
  have hlast := congrArg (fun text : String => text.toList.getLast?) heq
  simp only [String.toList_append, List.getLast?_append, hfirst, hsecond, Option.some_or,
    Option.some.injEq] at hlast
  exact h hlast

theorem getLast?_args : "Args".toList.getLast? = some 's' := by decide

theorem getLast?_meta : "Meta".toList.getLast? = some 'a' := by decide

theorem getLast?_filter : "Filter".toList.getLast? = some 'r' := by decide

theorem getLast?_uniqueFilter : "UniqueFilter".toList.getLast? = some 'r' := by decide

theorem uniqueFilter_eq : "UniqueFilter" = "Unique" ++ "Filter" := by decide

theorem append_right_injective (ending : String) :
    Function.Injective fun name : String => name ++ ending := by
  intro left right h
  have hlist := congrArg String.toList h
  simp only [String.toList_append, List.append_cancel_right_eq] at hlist
  exact String.toList_inj.mp hlist

namespace Generator

variable {g : Generator} {model left right : Model}

/-- The operations that take part and have arguments. -/
def inputOperations (g : Generator) (model : Model) : List Operation :=
  (g.operations model).filter fun operation => !operation.arguments.isEmpty

/-- Whether a model has a filter. -/
def emitsFilter (g : Generator) (model : Model) : Bool :=
  g.config.filters && !(g.filterFields model).isEmpty

/-- Whether a model has a filter that picks a single record. -/
def emitsUniqueFilter (g : Generator) (model : Model) : Bool :=
  g.config.lookup == .uniqueFilter && !(g.identifiers model).isEmpty

/-- The names of the types for counting and filtering the records of a model. -/
def auxiliaryTypes (g : Generator) (model : Model) : List String :=
  Naming.metaType model.name ::
    ((if g.emitsFilter model then [Naming.filterType model.name] else []) ++
      if g.emitsUniqueFilter model then [Naming.uniqueFilterType model.name] else [])

/-- The names of the types and inputs that come from a model. -/
def typeNames (g : Generator) (model : Model) : List String :=
  model.name :: ((g.inputOperations model).map fun operation => Naming.argsType operation.name) ++
    g.auxiliaryTypes model

theorem mem_auxiliaryTypes_iff {name : String} : name ∈ g.auxiliaryTypes model ↔
    name = Naming.metaType model.name ∨
      (g.emitsFilter model ∧ name = Naming.filterType model.name) ∨
        g.emitsUniqueFilter model ∧ name = Naming.uniqueFilterType model.name := by
  simp only [auxiliaryTypes, List.mem_cons, List.mem_append, List.mem_ite_nil_right,
    List.not_mem_nil, or_false]

theorem filterInput_name (g : Generator) (model : Model) :
    ((if g.config.filters then g.filterInput model else none).toList.map Sdl.Block.name) =
      if g.emitsFilter model then [Naming.filterType model.name] else [] := by
  unfold emitsFilter filterInput
  cases g.config.filters <;> cases g.filterFields model <;> rfl

theorem uniqueFilterInput_name (g : Generator) (model : Model) :
    (g.uniqueFilterInput model).toList.map Sdl.Block.name =
      if (g.identifiers model).isEmpty then [] else [Naming.uniqueFilterType model.name] := by
  unfold uniqueFilterInput
  cases g.identifiers model <;> rfl

/-- A composition defines the types that come from its model. -/
theorem typeNames_of_compose {c : Composition} (h : g.compose model = .ok c) :
    c.typeNames = g.typeNames model := by
  have hparts := isComposition_of_compose h
  obtain ⟨inputs, hinputs, hc⟩ := hparts.operationInputs
  obtain ⟨-, hobject, -⟩ := objectType_eq_ok hparts.object
  have hfilter : c.filter.toList.map Sdl.Block.name =
      if g.emitsFilter model then [Naming.filterType model.name] else [] := by
    rw [hparts.filter, filterInput_name]
  have hunique : c.uniqueFilter.toList.map Sdl.Block.name =
      if g.emitsUniqueFilter model then [Naming.uniqueFilterType model.name] else [] := by
    rw [hparts.uniqueFilter, emitsUniqueFilter]
    cases g.config.lookup with
    | uniqueFilter => rw [uniqueFilterInput_name]; cases (g.identifiers model).isEmpty <;> rfl
    | perIdentifier => rfl
  simp only [Composition.typeNames, Composition.blocks, List.map_cons, List.map_append, hobject,
    hc, operationInputs_name hinputs, hparts.count, hfilter, hunique]
  rfl

theorem queryNames_of_compose {c : Composition} (h : g.compose model = .ok c) :
    c.queryNames = g.queryNames model := by
  rw [Composition.queryNames, (isComposition_of_compose h).queries, queryFields_name]

theorem mutationNames_of_compose {c : Composition} (h : g.compose model = .ok c) :
    c.mutationNames = g.mutationNames model :=
  map_name_of_forall₂ (isComposition_of_compose h).mutations

/-- A model gives rise to a type of a name. -/
inductive Defines (g : Generator) (model : Model) : String → Prop
  | object : Defines g model model.name
  | arguments {operation : Operation} (h : operation ∈ g.inputOperations model) :
    Defines g model (Naming.argsType operation.name)
  | count : Defines g model (Naming.metaType model.name)
  | filter (h : g.emitsFilter model) : Defines g model (Naming.filterType model.name)
  | uniqueFilter (h : g.emitsUniqueFilter model) :
    Defines g model (Naming.uniqueFilterType model.name)

theorem mem_typeNames_iff {name : String} : name ∈ g.typeNames model ↔ g.Defines model name := by
  simp only [typeNames, List.cons_append, List.mem_cons, List.mem_append, List.mem_map,
    mem_auxiliaryTypes_iff]
  constructor
  · rintro (rfl | ⟨operation, h, rfl⟩ | rfl | ⟨h, rfl⟩ | ⟨h, rfl⟩)
    · exact .object
    · exact .arguments h
    · exact .count
    · exact .filter h
    · exact .uniqueFilter h
  · rintro (_ | h | _ | h | h)
    · exact .inl rfl
    · exact .inr (.inl ⟨_, h, rfl⟩)
    · exact .inr (.inr (.inl rfl))
    · exact .inr (.inr (.inr (.inl ⟨h, rfl⟩)))
    · exact .inr (.inr (.inr (.inr ⟨h, rfl⟩)))

/-- A type of a model is called like one that comes from another. -/
inductive TypesClash (g : Generator) (left right : Model) : Prop
  /-- The object has the name of the other's count. -/
  | count (h : left.name = right.name ++ "Meta")
  /-- The object has the name of the other's filter. -/
  | filter (h : g.emitsFilter right) (hname : left.name = right.name ++ "Filter")
  /-- The object has the name of the other's filter for a single record. -/
  | uniqueFilter (h : g.emitsUniqueFilter right)
    (hname : left.name = right.name ++ "UniqueFilter")
  /-- The filter has the name of the other's filter for a single record. -/
  | filters (h : g.emitsFilter left) (h' : g.emitsUniqueFilter right)
    (hname : left.name = right.name ++ "Unique")
  /-- The object has the name of the input of an operation of the other. -/
  | arguments {operation : Operation} (h : operation ∈ g.inputOperations right)
    (hname : left.name = Name.pascal operation.name ++ "Args")
  /-- Two operations have inputs of one name. -/
  | operations {operation other : Operation} (h : operation ∈ g.inputOperations left)
    (h' : other ∈ g.inputOperations right)
    (hname : Name.pascal operation.name = Name.pascal other.name)

theorem TypesClash.exists_common (h : g.TypesClash left right) :
    ∃ name, g.Defines left name ∧ g.Defines right name := by
  cases h with
  | count h => exact ⟨left.name, .object, h ▸ .count⟩
  | filter h hname => exact ⟨left.name, .object, hname ▸ .filter h⟩
  | uniqueFilter h hname => exact ⟨left.name, .object, hname ▸ .uniqueFilter h⟩
  | filters h h' hname =>
    have hfilter : Naming.filterType left.name = Naming.uniqueFilterType right.name := by
      rw [Naming.filterType, Naming.uniqueFilterType, uniqueFilter_eq, hname, String.append_assoc]
    exact ⟨_, .filter h, hfilter ▸ .uniqueFilter h'⟩
  | @arguments operation h hname =>
    have hdefines : g.Defines right (Naming.argsType operation.name) := .arguments h
    rw [Naming.argsType, ← hname] at hdefines
    exact ⟨left.name, .object, hdefines⟩
  | @operations operation other h h' hname =>
    have hargs : Naming.argsType operation.name = Naming.argsType other.name := by
      rw [Naming.argsType, Naming.argsType, hname]
    have hdefines : g.Defines right (Naming.argsType other.name) := .arguments h'
    rw [← hargs] at hdefines
    exact ⟨Naming.argsType operation.name, .arguments h, hdefines⟩

/-- The name of a filter is that of another's filter for a single record if the name of
the model ends accordingly. -/
theorem eq_of_filterType {left right : String}
    (h : Naming.filterType left = Naming.uniqueFilterType right) : left = right ++ "Unique" := by
  rw [Naming.filterType, Naming.uniqueFilterType, uniqueFilter_eq, ← String.append_assoc] at h
  exact append_right_injective "Filter" h

/-- **Types of one name.**  Two models of different names define a type of one name just
when a type of one of them is called like one that comes from the other. -/
theorem exists_common_type_iff (hne : left.name ≠ right.name) :
    (∃ name, g.Defines left name ∧ g.Defines right name) ↔
      g.TypesClash left right ∨ g.TypesClash right left := by
  constructor
  · rintro ⟨name, hleft, hright⟩
    generalize h : name = other at hright
    -- the endings tell the kinds of types apart, except that of a filter and a unique filter
    cases hleft with
    | object =>
      cases hright with
      | object => exact absurd h hne
      | arguments hmem => exact .inl (.arguments hmem h)
      | count => exact .inl (.count h)
      | filter hfilter => exact .inl (.filter hfilter h)
      | uniqueFilter hunique => exact .inl (.uniqueFilter hunique h)
    | arguments hmem =>
      cases hright with
      | object => exact .inr (.arguments hmem h.symm)
      | arguments hmem' => exact .inl (.operations hmem hmem' (append_right_injective "Args" h))
      | count => exact absurd h (append_ne_append getLast?_args getLast?_meta (by decide))
      | filter => exact absurd h (append_ne_append getLast?_args getLast?_filter (by decide))
      | uniqueFilter =>
        exact absurd h (append_ne_append getLast?_args getLast?_uniqueFilter (by decide))
    | count =>
      cases hright with
      | object => exact .inr (.count h.symm)
      | arguments => exact absurd h (append_ne_append getLast?_meta getLast?_args (by decide))
      | count => exact absurd (append_right_injective "Meta" h) hne
      | filter => exact absurd h (append_ne_append getLast?_meta getLast?_filter (by decide))
      | uniqueFilter =>
        exact absurd h (append_ne_append getLast?_meta getLast?_uniqueFilter (by decide))
    | filter hfilter =>
      cases hright with
      | object => exact .inr (.filter hfilter h.symm)
      | arguments => exact absurd h (append_ne_append getLast?_filter getLast?_args (by decide))
      | count => exact absurd h (append_ne_append getLast?_filter getLast?_meta (by decide))
      | filter => exact absurd (append_right_injective "Filter" h) hne
      | uniqueFilter hunique => exact .inl (.filters hfilter hunique (eq_of_filterType h))
    | uniqueFilter hunique =>
      cases hright with
      | object => exact .inr (.uniqueFilter hunique h.symm)
      | arguments =>
        exact absurd h (append_ne_append getLast?_uniqueFilter getLast?_args (by decide))
      | count => exact absurd h (append_ne_append getLast?_uniqueFilter getLast?_meta (by decide))
      | filter hfilter => exact .inr (.filters hfilter hunique (eq_of_filterType h.symm))
      | uniqueFilter => exact absurd (append_right_injective "UniqueFilter" h) hne
  · rintro (h | h)
    · exact h.exists_common
    · obtain ⟨name, hright, hleft⟩ := h.exists_common
      exact ⟨name, hleft, hright⟩

/-- A root query of a model is called like one of another. -/
inductive QueriesClash (g : Generator) (left right : Model) : Prop
  /-- The queries for many records have one name. -/
  | collections (h : Naming.collectionQuery left.name = Naming.collectionQuery right.name)
  /-- The query for many records has the name of the other's count. -/
  | count (h : Naming.collectionQuery left.name = Naming.metaQuery right.name)
  /-- The query for many records has the name of a lookup of the other. -/
  | lookup (h : Naming.collectionQuery left.name ∈ g.lookupNames right)
  /-- The count has the name of a lookup of the other. -/
  | countLookup (h : Naming.metaQuery left.name ∈ g.lookupNames right)
  /-- Two lookups have one name. -/
  | lookups {name : String} (h : name ∈ g.lookupNames left) (h' : name ∈ g.lookupNames right)

theorem mem_queryNames_iff {name : String} : name ∈ g.queryNames model ↔
    name = Naming.collectionQuery model.name ∨ name = Naming.metaQuery model.name ∨
      name ∈ g.lookupNames model := by
  simp only [queryNames, List.mem_cons]

theorem QueriesClash.exists_common (h : g.QueriesClash left right) :
    ∃ name, name ∈ g.queryNames left ∧ name ∈ g.queryNames right := by
  simp only [mem_queryNames_iff]
  rcases h with h | h | h | h | ⟨h, h'⟩
  · exact ⟨_, .inl rfl, .inl h⟩
  · exact ⟨_, .inl rfl, .inr (.inl h)⟩
  · exact ⟨_, .inl rfl, .inr (.inr h)⟩
  · exact ⟨_, .inr (.inl rfl), .inr (.inr h)⟩
  · exact ⟨_, .inr (.inr h), .inr (.inr h')⟩

/-- **Queries of one name.** -/
theorem exists_common_query_iff :
    (∃ name, name ∈ g.queryNames left ∧ name ∈ g.queryNames right) ↔
      g.QueriesClash left right ∨ g.QueriesClash right left := by
  constructor
  · rintro ⟨name, hleft, hright⟩
    rcases mem_queryNames_iff.mp hleft with rfl | rfl | hleft
    · rcases mem_queryNames_iff.mp hright with h | h | h
      · exact .inl (.collections h)
      · exact .inl (.count h)
      · exact .inl (.lookup h)
    · rcases mem_queryNames_iff.mp hright with h | h | h
      · exact .inr (.count h.symm)
      · exact .inl (.collections (append_right_injective "Meta" h))
      · exact .inl (.countLookup h)
    · rcases mem_queryNames_iff.mp hright with rfl | rfl | h
      · exact .inr (.lookup hleft)
      · exact .inr (.countLookup hleft)
      · exact .inl (.lookups hleft h)
  · rintro (h | h)
    · exact h.exists_common
    · obtain ⟨name, hright, hleft⟩ := h.exists_common
      exact ⟨name, hleft, hright⟩

/-- Two operations that take part have one name. -/
def MutationsClash (g : Generator) (left right : Model) : Prop :=
  ∃ operation ∈ g.operations left, ∃ other ∈ g.operations right, operation.name = other.name

theorem exists_common_mutation_iff :
    (∃ name, name ∈ g.mutationNames left ∧ name ∈ g.mutationNames right) ↔
      g.MutationsClash left right := by
  simp only [mutationNames, List.mem_map]
  constructor
  · rintro ⟨_, ⟨operation, hmem, rfl⟩, other, hmem', hname⟩
    exact ⟨operation, hmem, other, hmem', hname.symm⟩
  · rintro ⟨operation, hmem, other, hmem', hname⟩
    exact ⟨operation.name, ⟨operation, hmem, rfl⟩, other, hmem', hname.symm⟩

/-- The types that come from a model have different names. -/
structure HasDistinctTypes (g : Generator) (model : Model) : Prop where
  /-- No two inputs of operations have one name. -/
  inputs : ((g.inputOperations model).map fun operation => Name.pascal operation.name).Nodup
  /-- None of them has the name of the object. -/
  object : ∀ operation ∈ g.inputOperations model, model.name ≠ Naming.argsType operation.name

theorem ne_append_of_ne_empty {name ending : String} (h : ending ≠ "") : name ≠ name ++ ending := by
  intro heq
  have hlist := congrArg String.toList heq
  simp only [String.toList_append, List.self_eq_append_right] at hlist
  exact h (String.toList_inj.mp hlist)

theorem auxiliaryTypes_nodup : (g.auxiliaryTypes model).Nodup := by
  have hfilter : Naming.metaType model.name ≠ Naming.filterType model.name :=
    append_ne_append getLast?_meta getLast?_filter (by decide)
  have hunique : Naming.metaType model.name ≠ Naming.uniqueFilterType model.name :=
    append_ne_append getLast?_meta getLast?_uniqueFilter (by decide)
  have hfilters : Naming.filterType model.name ≠ Naming.uniqueFilterType model.name :=
    fun h => ne_append_of_ne_empty (by decide) (eq_of_filterType h)
  unfold auxiliaryTypes
  cases g.emitsFilter model <;> cases g.emitsUniqueFilter model <;>
    simp [hfilter, hunique, hfilters]

/-- **Types of one model.**  The types for counting and filtering never have the name of
another type of their model; the inputs of its operations may. -/
theorem typeNames_nodup_iff : (g.typeNames model).Nodup ↔ g.HasDistinctTypes model := by
  have hobject : model.name ∉ g.auxiliaryTypes model := by
    intro h
    rcases mem_auxiliaryTypes_iff.mp h with h | ⟨-, h⟩ | ⟨-, h⟩
    all_goals exact absurd h (ne_append_of_ne_empty (by decide))
  -- the endings tell the inputs of operations from the other types
  have hargs : ∀ operation : Operation,
      Naming.argsType operation.name ∉ g.auxiliaryTypes model := by
    intro operation h
    rcases mem_auxiliaryTypes_iff.mp h with h | ⟨-, h⟩ | ⟨-, h⟩
    · exact append_ne_append getLast?_args getLast?_meta (by decide) h
    · exact append_ne_append getLast?_args getLast?_filter (by decide) h
    · exact append_ne_append getLast?_args getLast?_uniqueFilter (by decide) h
  have hinputs : ((g.inputOperations model).map fun operation =>
      Naming.argsType operation.name).Nodup ↔
        ((g.inputOperations model).map fun operation => Name.pascal operation.name).Nodup := by
    rw [← List.nodup_map_iff (append_right_injective "Args")
      (l := (g.inputOperations model).map fun operation => Name.pascal operation.name),
      List.map_map]
    rfl
  rw [typeNames, List.cons_append, List.nodup_cons, List.nodup_append, List.mem_append, not_or,
    hinputs]
  constructor
  · rintro ⟨⟨hname, -⟩, hnodup, -, -⟩
    exact ⟨hnodup, fun operation h heq => hname (heq ▸ List.mem_map_of_mem h)⟩
  · rintro ⟨hnodup, hname⟩
    refine ⟨⟨fun h => ?_, hobject⟩, hnodup, auxiliaryTypes_nodup, ?_⟩
    · obtain ⟨operation, hmem, heq⟩ := List.mem_map.mp h
      exact hname operation hmem heq.symm
    · rintro _ h other hother rfl
      obtain ⟨operation, -, rfl⟩ := List.mem_map.mp h
      exact hargs operation hother

/-- The names of mutations of a model that passes the rules do not repeat. -/
theorem mutationNames_nodup (h : model.check = .ok ()) : (g.mutationNames model).Nodup :=
  (Model.check_eq_ok_iff.mp h).2.operations.sublist (List.filter_sublist.map Operation.name)

/-- Lists with an element in common are not disjoint. -/
theorem disjoint_iff_not_exists {names others : List String} :
    names.Disjoint others ↔ ¬ ∃ name, name ∈ names ∧ name ∈ others := by
  unfold List.Disjoint
  simp only [not_exists, not_and]

/-- Contributions of all models have different names if those of each model have, and
no two models with different names have one in common. -/
theorem nodup_flatMap_iff {f : Model → List String} {Clash : Model → Model → Prop}
    {models : List Model} (hnames : (models.map Model.name).Nodup)
    (h : ∀ {left right : Model}, left.name ≠ right.name →
      ((f left).Disjoint (f right) ↔ ¬ Clash left right)) :
    (models.flatMap f).Nodup ↔
      (∀ model ∈ models, (f model).Nodup) ∧
        models.Pairwise fun left right => ¬ Clash left right := by
  have hne : models.Pairwise fun left right => left.name ≠ right.name :=
    List.pairwise_map.mp hnames
  rw [List.nodup_flatMap]
  refine and_congr_right fun _ => ⟨fun hpairs => ?_, fun hpairs => ?_⟩
  · exact (hpairs.and hne).imp fun hboth => (h hboth.2).mp hboth.1
  · exact (hpairs.and hne).imp fun hboth => (h hboth.2).mpr hboth.1

/-- What the names of two models have in common. -/
structure CollideOnly (g : Generator) (left right : Model) (c d : Composition) : Prop where
  /-- Types, if a type of one is called like one that comes from the other. -/
  types : c.typeNames.Disjoint d.typeNames ↔
    ¬ (g.TypesClash left right ∨ g.TypesClash right left)
  /-- Queries, if a query of one is called like one of the other. -/
  queries : c.queryNames.Disjoint d.queryNames ↔
    ¬ (g.QueriesClash left right ∨ g.QueriesClash right left)
  /-- Mutations, if operations that take part have one name. -/
  mutations : c.mutationNames.Disjoint d.mutationNames ↔ ¬ g.MutationsClash left right

theorem typeNames_disjoint_iff (hne : left.name ≠ right.name) :
    (g.typeNames left).Disjoint (g.typeNames right) ↔
      ¬ (g.TypesClash left right ∨ g.TypesClash right left) := by
  rw [disjoint_iff_not_exists, ← exists_common_type_iff hne]
  simp only [mem_typeNames_iff]

theorem queryNames_disjoint_iff : (g.queryNames left).Disjoint (g.queryNames right) ↔
    ¬ (g.QueriesClash left right ∨ g.QueriesClash right left) := by
  rw [disjoint_iff_not_exists, exists_common_query_iff]

theorem mutationNames_disjoint_iff : (g.mutationNames left).Disjoint (g.mutationNames right) ↔
    ¬ g.MutationsClash left right := by
  rw [disjoint_iff_not_exists, exists_common_mutation_iff]

/-- **Collisions in a merged document.**  The document is put together from the
compositions of the models, whose texts declare the names in them.  Two of these define
a type of one name, or have a query or a mutation of one name, only where the names of
the models and their members coincide in one of the ways listed; the document declares
each of them once just when no two models do and no model does so by itself. -/
theorem merged_collisions {schema : Schema} {project : Project}
    (hmode : g.config.mode = .merged) (h : g.generate schema = .ok project) :
    ∃ compositions, List.Forall₂ (fun model c => g.compose model = .ok c) (g.models schema)
        compositions ∧
      project.filesOf .sdl = [⟨g.config.mergedFile, .sdl,
        Sdl.merge (compositions.map Composition.fragment) g.config.idScalar⟩] ∧
      (∀ c ∈ compositions, c.HasTexts) ∧
      (∀ left ∈ g.models schema, ∀ right ∈ g.models schema, left ≠ right →
        ∀ c d, g.compose left = .ok c → g.compose right = .ok d →
          g.CollideOnly left right c d) ∧
      ((compositions.flatMap Composition.typeNames).Nodup ↔
        (∀ model ∈ g.models schema, g.HasDistinctTypes model) ∧
          (g.models schema).Pairwise fun left right =>
            ¬ (g.TypesClash left right ∨ g.TypesClash right left)) ∧
      ((compositions.flatMap Composition.queryNames).Nodup ↔
        (∀ model ∈ g.models schema, (g.queryNames model).Nodup) ∧
          (g.models schema).Pairwise fun left right =>
            ¬ (g.QueriesClash left right ∨ g.QueriesClash right left)) ∧
      ((compositions.flatMap Composition.mutationNames).Nodup ↔
        (g.models schema).Pairwise fun left right => ¬ g.MutationsClash left right) := by
  obtain ⟨compositions, hcompositions, hdocument⟩ := document_of_merged hmode h
  obtain ⟨_, hcheck, -⟩ := bind_eq_ok_iff.mp h
  obtain ⟨hmodels, hnodup⟩ := Schema.check_eq_ok_iff.mp hcheck
  have hnames : ((g.models schema).map Model.name).Nodup :=
    hnodup.sublist (List.filter_sublist.map Model.name)
  refine ⟨compositions, hcompositions, hdocument, ?_, ?_, ?_, ?_, ?_⟩
  · exact forall_of_forall₂ hcompositions fun _ _ _ hc => hasTexts_of_compose hc
  · intro left hleft right hright hne c d hc hd
    have hname : left.name ≠ right.name := fun heq =>
      hne (List.inj_on_of_nodup_map hnames hleft hright heq)
    refine ⟨?_, ?_, ?_⟩
    · rw [typeNames_of_compose hc, typeNames_of_compose hd]
      exact typeNames_disjoint_iff hname
    · rw [queryNames_of_compose hc, queryNames_of_compose hd]
      exact queryNames_disjoint_iff
    · rw [mutationNames_of_compose hc, mutationNames_of_compose hd]
      exact mutationNames_disjoint_iff
  · rw [← flatMap_eq_of_forall₂ hcompositions fun hc => (typeNames_of_compose hc).symm,
      nodup_flatMap_iff hnames typeNames_disjoint_iff]
    simp only [typeNames_nodup_iff]
  · rw [← flatMap_eq_of_forall₂ hcompositions fun hc => (queryNames_of_compose hc).symm,
      nodup_flatMap_iff hnames fun _ => queryNames_disjoint_iff]
  · rw [← flatMap_eq_of_forall₂ hcompositions fun hc => (mutationNames_of_compose hc).symm,
      nodup_flatMap_iff hnames fun _ => mutationNames_disjoint_iff]
    refine and_iff_right fun model hmodel => mutationNames_nodup ?_
    exact hmodels model (List.mem_filter.mp hmodel).1

/-- A model with an operation. -/
def person : Model where
  name := "Person"
  operations := [{ name := "archive", arguments := [⟨"note", .scalar .string {}⟩]
                   returns := .scalar .boolean {} }]

/-- A model with the same plural, and an operation of the same name. -/
def people : Model where
  name := "People"
  operations := [{ name := "archive", arguments := [⟨"all", .scalar .boolean {}⟩]
                   returns := .scalar .boolean {} }]

/-- A generator of one document. -/
def oneDocument : Generator where
  config := { mode := .merged, emitResolvers := false }

/-- Two models of a schema that passes the rules define a type, a query and a mutation
of one name. -/
theorem person_collides_people : ∃ project c d,
    oneDocument.generate ⟨[person, people]⟩ = .ok project ∧
      person ∈ oneDocument.models ⟨[person, people]⟩ ∧
      people ∈ oneDocument.models ⟨[person, people]⟩ ∧ person ≠ people ∧
      oneDocument.compose person = .ok c ∧ oneDocument.compose people = .ok d ∧
      ("ArchiveArgs" ∈ c.typeNames ∧ "ArchiveArgs" ∈ d.typeNames) ∧
      ("people" ∈ c.queryNames ∧ "people" ∈ d.queryNames) ∧
      ("archive" ∈ c.mutationNames ∧ "archive" ∈ d.mutationNames) := by
  refine ⟨_, _, _, rfl, by decide, by decide, by decide, rfl, rfl, ?_, ?_, ?_⟩
  all_goals decide +kernel

theorem merged_collisions_person : ∃ project c d,
    oneDocument.generate ⟨[person, people]⟩ = .ok project ∧ oneDocument.config.mode = .merged ∧
      oneDocument.compose person = .ok c ∧ oneDocument.compose people = .ok d ∧
      oneDocument.CollideOnly person people c d := by
  obtain ⟨_, -, -, -, hpairs, -⟩ :=
    merged_collisions (rfl : oneDocument.config.mode = .merged)
      (rfl : oneDocument.generate ⟨[person, people]⟩ = .ok _)
  exact ⟨_, _, _, rfl, rfl, rfl, rfl,
    hpairs person (by decide) people (by decide) (by decide) _ _ rfl rfl⟩

end Generator
end Generate
end EntitySdl
