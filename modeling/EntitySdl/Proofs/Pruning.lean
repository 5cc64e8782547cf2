import EntitySdl.Generate.Project
import EntitySdl.Proofs.WellFormed

/-! # Members that take no part

A generator sees of a model its name, the members that take part, and the texts
that come with them.  Runs over models that look alike to it give the same files.
When the hooks go by names, a schema looks to the generator as it does with all
that they exclude taken out.
-/
namespace EntitySdl

/-- A model with fewer members than one that passes the rules passes them too. -/
theorem Model.check_of_sublist {left right : Model} (hname : left.name = right.name)
    (hproperties : left.properties.Sublist right.properties)
    (hrelations : left.relations.Sublist right.relations)
    (hoperations : left.operations.Sublist right.operations) (h : right.check = .ok ()) :
    left.check = .ok () := by
  obtain ⟨hw, hd⟩ := Model.check_eq_ok_iff.mp h
  refine Model.check_eq_ok_iff.mpr ⟨⟨?_, ?_, ?_, ?_, ?_⟩, ⟨?_, ?_, ?_⟩⟩
  · exact hname ▸ hw.name
  · exact fun property hmem => hw.properties property (hproperties.subset hmem)
  · exact fun relation hmem => hw.relations relation (hrelations.subset hmem)
  · exact fun operation hmem => hw.operations operation (hoperations.subset hmem)
  · exact fun operation hmem => hw.arguments operation (hoperations.subset hmem)
  · exact hd.fields.sublist ((hproperties.map Property.name).append (hrelations.map Relation.name))
  · exact hd.operations.sublist (hoperations.map Operation.name)
  · exact fun operation hmem => hd.arguments operation (hoperations.subset hmem)

/-- Going over lists with related elements gives one result, if a function agrees on
related elements. -/
theorem mapM_eq_of_forall₂ {ε α β : Type} {f : α → Except ε β} {R : α → α → Prop}
    {left right : List α} (h : List.Forall₂ R left right)
    (hf : ∀ a ∈ left, ∀ b ∈ right, R a b → f a = f b) : left.mapM f = right.mapM f := by
  induction h with
  | nil => rfl
  | @cons a b left right hab _ ih =>
    rw [List.mapM_cons, List.mapM_cons, hf a List.mem_cons_self b List.mem_cons_self hab,
      ih fun a ha b hb => hf a (List.mem_cons_of_mem _ ha) b (List.mem_cons_of_mem _ hb)]

namespace Generate

/-- The answers depend on the names of models and members only. -/
structure Hooks.GoByNames (hooks : Hooks) : Prop where
  isTopLevel {left right : Model} : left.name = right.name →
    hooks.isTopLevel left = hooks.isTopLevel right
  shouldEmit {left right : Model} : left.name = right.name →
    hooks.shouldEmit left = hooks.shouldEmit right
  includesProperty {left right : Model} {property other : Property} : left.name = right.name →
    property.name = other.name →
      hooks.includesProperty left property = hooks.includesProperty right other
  includesRelation {left right : Model} {relation other : Relation} : left.name = right.name →
    relation.name = other.name →
      hooks.includesRelation left relation = hooks.includesRelation right other
  includesOperation {left right : Model} {operation other : Operation} :
    left.name = right.name → operation.name = other.name →
      hooks.includesOperation left operation = hooks.includesOperation right other
  generatesResolvers {left right : Model} : left.name = right.name →
    hooks.generatesResolvers left = hooks.generatesResolvers right
  fieldDirective {left right : Model} {field : String} : left.name = right.name →
    hooks.fieldDirective left field = hooks.fieldDirective right field
  relationResolver {left right : Model} {relation other : Relation} : left.name = right.name →
    relation.name = other.name →
      hooks.relationResolver left relation = hooks.relationResolver right other

namespace Generator

/-- What the generator sees of two models is the same. -/
structure LookAlike (g : Generator) (left right : Model) : Prop where
  name : left.name = right.name
  properties : g.properties left = g.properties right
  relations : g.relations left = g.relations right
  operations : g.operations left = g.operations right
  emitsResolvers : g.emitsResolvers left = g.emitsResolvers right
  fieldDirective : g.fieldDirective left = g.fieldDirective right
  relationResolver : g.relationResolver left = g.relationResolver right

variable {g : Generator}

namespace LookAlike

variable {left right : Model}

theorem identifiers (h : g.LookAlike left right) : g.identifiers left = g.identifiers right := by
  rw [Generator.identifiers, Generator.identifiers, h.properties]

theorem objectType (h : g.LookAlike left right) : g.objectType left = g.objectType right := by
  have hproperty : g.propertyField left = g.propertyField right := by
    funext property
    simp only [propertyField, h.name, h.fieldDirective]
  have hrelation : g.relationField left = g.relationField right := by
    funext relation
    simp only [relationField, h.fieldDirective]
  simp only [Generator.objectType, h.name, h.properties, h.relations, hproperty, hrelation]

theorem operationInput (h : g.LookAlike left right) :
    g.operationInput left = g.operationInput right := by
  have hargument : g.argumentField left = g.argumentField right := by
    funext operation argument
    simp only [argumentField, h.name]
  funext operation
  simp only [Generator.operationInput, hargument]

theorem filterInput (h : g.LookAlike left right) : g.filterInput left = g.filterInput right := by
  have hfields : g.filterFields left = g.filterFields right := by
    simp only [filterFields, h.properties]
  simp only [Generator.filterInput, hfields, h.name]

theorem uniqueFilterInput (h : g.LookAlike left right) :
    g.uniqueFilterInput left = g.uniqueFilterInput right := by
  simp only [Generator.uniqueFilterInput, h.identifiers, h.name]

theorem queryFields (h : g.LookAlike left right) : g.queryFields left = g.queryFields right := by
  have hlookup : g.lookupFields left = g.lookupFields right := by
    simp only [lookupFields, h.identifiers, h.name]
  funext withFilter
  simp only [Generator.queryFields, filterArgument, hlookup, h.name]

theorem mutationFields (h : g.LookAlike left right) :
    g.mutationFields left = g.mutationFields right := by
  have hmutation : g.mutationField left = g.mutationField right := by
    funext operation
    simp only [mutationField, h.name]
  simp only [Generator.mutationFields, hmutation, h.operations]

theorem resolvers (h : g.LookAlike left right) : g.resolvers left = g.resolvers right := by
  have hentry : g.relationEntry left = g.relationEntry right := by
    funext relation
    simp only [relationEntry, h.relationResolver, h.name]
  have hqueries : g.queryNames left = g.queryNames right := by
    simp only [queryNames, lookupNames, h.identifiers, h.name]
  simp only [Generator.resolvers, mutationNames, h.relations, h.operations, hentry, hqueries,
    h.name]

theorem compose (h : g.LookAlike left right) (hcheck : left.check = right.check) :
    g.compose left = g.compose right := by
  simp only [Generator.compose, countType, hcheck, h.name, h.objectType, h.operations,
    h.operationInput, h.filterInput, h.uniqueFilterInput, h.queryFields, h.mutationFields]

theorem modelOutput (h : g.LookAlike left right) (hcheck : left.check = right.check) :
    g.modelOutput left = g.modelOutput right := by
  simp only [Generator.modelOutput, h.compose hcheck, h.emitsResolvers, h.resolvers]

end LookAlike

/-- Schemas whose models look alike give the same files, if both pass the rules. -/
theorem files_eq_of_lookAlike {left right : Schema} (hleft : left.check = .ok ())
    (hright : right.check = .ok ())
    (h : List.Forall₂ g.LookAlike (g.models left) (g.models right)) :
    (g.generate left).map Project.files = (g.generate right).map Project.files := by
  have hcheck : ∀ {schema : Schema}, schema.check = .ok () → ∀ model ∈ g.models schema,
      model.check = .ok () := fun hs model hmodel =>
    Schema.model_check hs (List.mem_filter.mp hmodel).1
  have houtputs : (g.models left).mapM g.modelOutput = (g.models right).mapM g.modelOutput := by
    refine mapM_eq_of_forall₂ h fun model hmodel other hother halike => ?_
    exact halike.modelOutput (by rw [hcheck hleft model hmodel, hcheck hright other hother])
  unfold generate
  rw [hleft, hright, houtputs]
  cases (g.models right).mapM g.modelOutput <;> rfl

/-- A model without the members that take no part. -/
def prunedModel (g : Generator) (model : Model) : Model where
  name := model.name
  properties := g.properties model
  relations := g.relations model
  operations := g.operations model

/-- A schema without the models and members that take no part. -/
def pruned (g : Generator) (schema : Schema) : Schema where
  models := (g.models schema).map g.prunedModel

theorem check_prunedModel {model : Model} (h : model.check = .ok ()) :
    (g.prunedModel model).check = .ok () :=
  @Model.check_of_sublist _ model rfl List.filter_sublist List.filter_sublist
    List.filter_sublist h

theorem check_pruned {schema : Schema} (h : schema.check = .ok ()) :
    (g.pruned schema).check = .ok () := by
  obtain ⟨hmodels, hnames⟩ := Schema.check_eq_ok_iff.mp h
  refine Schema.check_eq_ok_iff.mpr ⟨?_, ?_⟩
  · intro model hmodel
    obtain ⟨full, hfull, rfl⟩ := List.mem_map.mp hmodel
    exact check_prunedModel (hmodels full (List.mem_filter.mp hfull).1)
  · have hsame : (g.pruned schema).models.map Model.name = (g.models schema).map Model.name :=
      List.map_map
    rw [hsame]
    exact hnames.sublist (List.filter_sublist.map Model.name)

@[simp] theorem prunedModel_name (g : Generator) (model : Model) :
    (g.prunedModel model).name = model.name := rfl

/-- With hooks that go by names, a model looks as it does with fewer members. -/
theorem lookAlike_prunedModel (hnames : g.hooks.GoByNames) (model : Model) :
    g.LookAlike (g.prunedModel model) model where
  name := rfl
  properties := List.filter_eq_self.mpr fun property hmem => by
    rw [hnames.includesProperty (g.prunedModel_name model) rfl]
    exact (List.mem_filter.mp hmem).2
  relations := List.filter_eq_self.mpr fun relation hmem => by
    rw [hnames.includesRelation (g.prunedModel_name model) rfl]
    exact (List.mem_filter.mp hmem).2
  operations := List.filter_eq_self.mpr fun operation hmem => by
    rw [hnames.includesOperation (g.prunedModel_name model) rfl]
    exact (List.mem_filter.mp hmem).2
  emitsResolvers := by
    rw [emitsResolvers, emitsResolvers, hnames.generatesResolvers (g.prunedModel_name model)]
  fieldDirective := by
    funext field
    rw [fieldDirective, fieldDirective, hnames.fieldDirective (g.prunedModel_name model),
      prunedModel_name]
  relationResolver := by
    funext relation
    rw [relationResolver, relationResolver,
      hnames.relationResolver (g.prunedModel_name model) rfl, prunedModel_name]

/-- **Excluded members leave no trace.**  With hooks that go by names, a run over a schema
that passes the rules has the same files, or the same fault, as one over the schema
without the models and members that take no part. -/
theorem generate_pruned {schema : Schema} (hcheck : schema.check = .ok ())
    (hnames : g.hooks.GoByNames) :
    (g.generate (g.pruned schema)).map Project.files = (g.generate schema).map Project.files := by
  have hmodels : g.models (g.pruned schema) = (g.models schema).map g.prunedModel := by
    refine List.filter_eq_self.mpr fun model hmodel => ?_
    obtain ⟨full, hfull, rfl⟩ := List.mem_map.mp hmodel
    have hsame : g.emits (g.prunedModel full) = g.emits full := by
      rw [emits, emits, hnames.isTopLevel (g.prunedModel_name full),
        hnames.shouldEmit (g.prunedModel_name full)]
    rw [hsame]
    exact (List.mem_filter.mp hfull).2
  refine files_eq_of_lookAlike (check_pruned hcheck) hcheck ?_
  rw [hmodels, List.forall₂_map_left_iff]
  exact List.forall₂_same.mpr fun model _ => lookAlike_prunedModel hnames model

/-- A schema with a free-form object in a property and in a model of its own. -/
def vault : Schema where
  models :=
    [{ name := "Account"
       properties := [⟨"id", .scalar .uniqueIdentifier { isPrimaryKey := true }⟩,
         ⟨"secret", .object {}⟩]
       relations := [{ name := "owner", model := "User" },
         { name := "trail", model := "Audit", cardinality := .multiple }]
       operations := [{ name := "close", returns := .scalar .boolean {} },
         { name := "purge", arguments := [⟨"scope", .object {}⟩]
           returns := .scalar .boolean {} }] },
     { name := "Audit", properties := [⟨"entry", .object {}⟩] }]

/-- A generator that leaves out what cannot be generated, and some more, by its name. -/
def discreet : Generator where
  hooks :=
    { shouldEmit := fun model => model.name != "Audit"
      includesProperty := fun _ property => property.name != "secret"
      includesRelation := fun _ relation => relation.name != "trail"
      includesOperation := fun model operation =>
        memberKey model.name operation.name != "Account.purge"
      relationResolver := fun model relation => some ("parent => load(parent, '" ++
        memberKey model.name relation.name ++ "')") }

theorem goByNames_discreet : discreet.hooks.GoByNames where
  isTopLevel _ := rfl
  shouldEmit h := by simp only [discreet, h]
  includesProperty _ h := by simp only [discreet, h]
  includesRelation _ h := by simp only [discreet, h]
  includesOperation h h' := by simp only [discreet, h, h']
  generatesResolvers _ := rfl
  fieldDirective _ := rfl
  relationResolver h h' := by simp only [discreet, h, h']

theorem generate_pruned_vault : vault.check = .ok () ∧ discreet.hooks.GoByNames ∧
    (∃ project, discreet.generate vault = .ok project) ∧
    (discreet.generate (discreet.pruned vault)).map Project.files =
      (discreet.generate vault).map Project.files :=
  ⟨rfl, goByNames_discreet, ⟨_, rfl⟩, generate_pruned rfl goByNames_discreet⟩

end Generator
end Generate
end EntitySdl
