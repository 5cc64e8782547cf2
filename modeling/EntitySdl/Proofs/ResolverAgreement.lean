import EntitySdl.Generate.Resolvers
import EntitySdl.Proofs.FragmentTexts

/-! # Resolvers and root fields agree

The root fields of a model and its resolvers are computed apart, the fields with
their arguments and types and the resolvers from lists of names.  They agree: a
resolver stands for each root field and for each relation of the object type, under the
name that the line of the field begins with.
-/
namespace EntitySdl
namespace Generate

open Sdl

namespace Generator

variable (g : Generator) (model : Model)

/-- The sections of a resolver file, each with the name of a type: the queries, the mutations
if the fragment has any, and the relations if any take part. -/
def resolverSections (c : Composition) (m : ResolverModule) :
    List (String × List ResolverEntry) :=
  ("Query", m.queries) ::
    ((if c.fragment.mutationFields = [] then [] else [("Mutation", m.mutations)]) ++
      if g.relations model = [] then [] else [(model.name, m.relations)])

/-- A section as it stands in a file: the name of a type, and behind it an entry for each
resolver. -/
def sectionText (name : String) (entries : List ResolverEntry) : String :=
  "  " ++ name ++ ": \x7b\n" ++
    String.join (entries.map fun entry =>
      "    " ++ entry.name ++ ": " ++ entry.source ++ ",\n") ++ "  \x7d,\n"

/-- A resolver file that stands for the root fields and the relations of a fragment. -/
structure Agree (c : Composition) (m : ResolverModule) : Prop where
  /-- There is a resolver for each query, in order, with the name that its line begins with. -/
  queries : m.queries.map ResolverEntry.name = c.fragment.queryFields.map headOf
  /-- There is one for each mutation, in order. -/
  mutations : m.mutations.map ResolverEntry.name = c.fragment.mutationFields.map headOf
  /-- There is one for each relation that takes part, in order. -/
  relations : m.relations.map ResolverEntry.name = (g.relations model).map Relation.name
  /-- The resolvers of root fields throw, with their names in the message. -/
  stubs : ∀ entry ∈ m.queries ++ m.mutations, entry.source =
    "(parent, args, context, info) => \x7b\n" ++
    "      // Insert your " ++ entry.name ++ " implementation here\n" ++
    "      throw new Error('" ++ entry.name ++ " is not implemented')\n" ++
    "    \x7d"
  /-- The file consists of its sections, between the line that exports them and a brace. -/
  text : m.text =
    (match g.config.outputKind with
      | .sourceModule => "export default \x7b\n"
      | .plainScript => "module.exports = \x7b\n") ++
    String.join ((g.resolverSections model c m).map fun (name, entries) =>
      sectionText name entries) ++ "\x7d\n"
  /-- A section is called after mutations if there are any, or after a model of that name which
  has relations. -/
  mutationSection : (∃ entries, ("Mutation", entries) ∈ g.resolverSections model c m) ↔
    c.fragment.mutationFields ≠ [] ∨ model.name = "Mutation" ∧ g.relations model ≠ []
  /-- The relations are fields of the object type that the fragment defines. -/
  relationFields : ∃ definition ∈ c.fragment.definitions, ∃ fields,
    Declares definition "type" model.name fields ∧
      ∀ relation ∈ g.relations model, relation.name ∈ fields

variable {g model}

theorem map_name_placeholder (names : List String) :
    (names.map placeholder).map ResolverEntry.name = names := by
  rw [List.map_map]
  exact List.map_id names

theorem name_of_relationEntry {relation : Relation} {entry : ResolverEntry}
    (h : g.relationEntry model relation = .ok entry) : entry.name = relation.name := by
  unfold relationEntry at h
  split at h <;> cases h
  rfl

theorem map_name_of_mapM {relations : List Relation} {entries : List ResolverEntry}
    (h : relations.mapM (g.relationEntry model) = .ok entries) :
    entries.map ResolverEntry.name = relations.map Relation.name := by
  induction mapM_eq_ok_iff.mp h with
  | nil => rfl
  | cons hentry _ ih =>
    rw [List.map_cons, List.map_cons, name_of_relationEntry hentry, ih (mapM_eq_ok_iff.mpr ‹_›)]

/-- A section is left out when nothing stands in it. -/
theorem renderSection_eq {name : String} {entries : List ResolverEntry} {condition : Prop}
    [Decidable condition] (h : entries = [] ↔ condition) :
    ResolverModule.renderSection name entries =
      if condition then "" else sectionText name entries := by
  cases entries with
  | nil =>
    rw [if_pos (h.mp rfl)]
    rfl
  | cons entry rest =>
    rw [if_neg fun hcondition => nomatch h.mpr hcondition]
    simp only [ResolverModule.renderSection, sectionText, ResolverEntry.text, String.append_assoc]

theorem join_resolverSections {c : Composition} {m : ResolverModule} :
    String.join ((g.resolverSections model c m).map fun (name, entries) =>
        sectionText name entries) =
      sectionText "Query" m.queries ++
        (if c.fragment.mutationFields = [] then "" else sectionText "Mutation" m.mutations) ++
          if g.relations model = [] then "" else sectionText model.name m.relations := by
  unfold resolverSections
  by_cases hmutations : c.fragment.mutationFields = [] <;>
    by_cases hrelations : g.relations model = [] <;>
      simp [hmutations, hrelations, String.append_assoc]

theorem mutation_mem_resolverSections_iff {c : Composition} {m : ResolverModule} :
    (∃ entries, ("Mutation", entries) ∈ g.resolverSections model c m) ↔
      c.fragment.mutationFields ≠ [] ∨ model.name = "Mutation" ∧ g.relations model ≠ [] := by
  unfold resolverSections
  by_cases hmutations : c.fragment.mutationFields = []
  · by_cases hrelations : g.relations model = []
    · simp [hmutations, hrelations]
    · simp [hmutations, hrelations, eq_comm]
  · simp [hmutations]

/-- **Resolvers and schema agree.**  When a model is composed and has resolvers,
these stand for its root fields and its relations one by one.  The section of mutations is
left out when there are none, so that a section called after them is there for no other
reason than that the model has their name. -/
theorem resolvers_agree {c : Composition} {m : ResolverModule} (hc : g.compose model = .ok c)
    (hm : g.resolvers model = .ok m) : g.Agree model c m := by
  have hparts := isComposition_of_compose hc
  have htexts := hasTexts_of_compose hc
  obtain ⟨entries, hentries, hm⟩ := bind_eq_ok_iff.mp hm
  cases hm
  have hqueries : c.fragment.queryFields.map headOf = g.queryNames model := by
    rw [htexts.map_headOf_queryFields, hparts.queries, queryFields_name]
  have hmutations : c.fragment.mutationFields.map headOf = g.mutationNames model := by
    rw [htexts.map_headOf_mutationFields]
    exact map_name_of_forall₂ hparts.mutations
  have hrelations := map_name_of_mapM hentries
  refine
    { queries := (map_name_placeholder _).trans hqueries.symm
      mutations := (map_name_placeholder _).trans hmutations.symm
      relations := hrelations
      stubs := ?_
      text := ?_
      mutationSection := mutation_mem_resolverSections_iff
      relationFields := ?_ }
  · intro entry hentry
    rw [← List.map_append] at hentry
    obtain ⟨name, -, rfl⟩ := List.mem_map.mp hentry
    rfl
  · -- a section is left out when the list that it is written from is empty
    have hnone : (g.mutationNames model).map placeholder = [] ↔ c.fragment.mutationFields = [] := by
      rw [List.map_eq_nil_iff, ← hmutations, List.map_eq_nil_iff]
    have hnone' : entries = [] ↔ g.relations model = [] := by
      rw [← List.map_eq_nil_iff (f := ResolverEntry.name), hrelations, List.map_eq_nil_iff]
    rw [join_resolverSections, ResolverModule.text, renderSection_eq hnone,
      renderSection_eq hnone', renderSection_eq (iff_of_false (by simp [queryNames]) not_false),
      if_neg not_false]
    cases g.config.outputKind <;> simp only [ResolverModule.opening, String.append_assoc]
  · obtain ⟨hkind, hname, fields, hfields, hobject⟩ := objectType_eq_ok hparts.object
    obtain ⟨definition, hdefinition, hdeclares⟩ :=
      htexts.exists_declares (show c.object ∈ c.blocks by simp [Composition.blocks])
    rw [hkind, hname] at hdeclares
    refine ⟨definition, hdefinition, _, hdeclares, fun relation hrelation => ?_⟩
    rw [Block.fieldNames, hobject, List.map_append]
    refine List.mem_append_right _ (List.mem_map.mpr ⟨g.relationField model relation, ?_, rfl⟩)
    exact List.mem_map_of_mem hrelation

/-- A model with a member of each kind. -/
def booking : Model where
  name := "Booking"
  properties := [⟨"id", .scalar .uniqueIdentifier { isPrimaryKey := true }⟩,
    ⟨"note", .scalar .string {}⟩]
  relations := [{ name := "guests", model := "Guest", cardinality := .multiple }]
  operations := [{ name := "cancel", arguments := [⟨"reason", .scalar .string {}⟩]
                   returns := .scalar .boolean {} }]

/-- A generator that resolves every relation in the same way. -/
def forwarding : Generator where
  hooks := { relationResolver := fun _ _ => some "parent => parent.guests" }

theorem forwarding_agree_booking : ∃ c m, forwarding.compose booking = .ok c ∧
    forwarding.resolvers booking = .ok m ∧ forwarding.Agree booking c m :=
  ⟨_, _, rfl, rfl, resolvers_agree rfl rfl⟩

/-- A model that is called like a root type. -/
def mutation : Model where
  name := "Mutation"
  relations := [{ name := "author", model := "User" }]

/-- Its file has a section of that name, although there are no mutations. -/
theorem mutation_without_mutations : ∃ c m, forwarding.compose mutation = .ok c ∧
    forwarding.resolvers mutation = .ok m ∧ c.fragment.mutationFields = [] ∧
    m.relations.map ResolverEntry.name = ["author"] ∧
    m.text = "export default \x7b\n" ++
      "  Query: \x7b\n" ++
      "    mutations: (parent, args, context, info) => \x7b\n" ++
      "      // Insert your mutations implementation here\n" ++
      "      throw new Error('mutations is not implemented')\n" ++
      "    \x7d,\n" ++
      "    mutationsMeta: (parent, args, context, info) => \x7b\n" ++
      "      // Insert your mutationsMeta implementation here\n" ++
      "      throw new Error('mutationsMeta is not implemented')\n" ++
      "    \x7d,\n" ++
      "  \x7d,\n" ++
      "  Mutation: \x7b\n" ++
      "    author: parent => parent.guests,\n" ++
      "  \x7d,\n" ++
      "\x7d\n" := by
  refine ⟨_, _, rfl, rfl, rfl, rfl, ?_⟩
  decide +kernel

end Generator
end Generate
end EntitySdl
