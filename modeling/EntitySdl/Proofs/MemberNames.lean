import EntitySdl.Proofs.Collisions
import EntitySdl.Proofs.FieldNames
import EntitySdl.Proofs.PascalCase

/-! # Names that two members share

The rules for models compare the names of members as they are declared.  The query for a
record by one of its properties and the input of an operation carry these names in Pascal
case, which does not keep all differences: of two members that differ in underscores or
in the case of letters only, the derived names may be the same.
-/
namespace EntitySdl
namespace Generate

open Name Sdl

theorem Naming.lookupQuery_eq_iff {model left right : String} :
    Naming.lookupQuery model left = Naming.lookupQuery model right ↔
      pascal left = pascal right := by
  constructor
  · intro h
    have hlist := congrArg String.toList h
    simp only [Naming.lookupQuery, String.toList_append, List.append_cancel_left_eq] at hlist
    exact String.toList_inj.mp hlist
  · intro h
    rw [Naming.lookupQuery, Naming.lookupQuery, h]

theorem Naming.argsType_eq_iff {left right : String} :
    Naming.argsType left = Naming.argsType right ↔ pascal left = pascal right :=
  (append_right_injective "Args").eq_iff

namespace Generator

variable {g : Generator} {model : Model}

section Derived

variable {α : Type} {members : List α} {name : α → String} {derived : String → String}

/-- Names that are derived through Pascal case differ if those of no two members have the
same words. -/
theorem nodup_derived_iff
    (hderived : ∀ left right, derived left = derived right ↔ pascal left = pascal right)
    (hvalid : ∀ member ∈ members, isIdentifier (name member)) (hnames : (members.map name).Nodup) :
    (members.map fun member => derived (name member)).Nodup ↔
      ∀ left ∈ members, ∀ right ∈ members, SameWords (name left) (name right) → left = right := by
  rw [List.nodup_map_iff_inj_on hnames.of_map]
  refine forall₂_congr fun left hleft => forall₂_congr fun right hright => ?_
  rw [hderived, pascal_eq_iff (isNamePart_of_mem (hvalid left hleft))
    (isNamePart_of_mem (hvalid right hright))]

/-- Among names in camel case no two have the same words. -/
theorem eq_of_sameWords_of_camel (hvalid : ∀ member ∈ members, isIdentifier (name member))
    (hnames : (members.map name).Nodup)
    (hcamel : ∀ member ∈ members, camel (name member) = name member) :
    ∀ left ∈ members, ∀ right ∈ members, SameWords (name left) (name right) → left = right := by
  intro left hleft right hright hsame
  apply List.inj_on_of_nodup_map hnames hleft hright
  exact eq_of_sameWords (isNamePart_of_mem (hvalid left hleft))
    (isNamePart_of_mem (hvalid right hright)) (hcamel left hleft) (hcamel right hright) hsame

end Derived

theorem lookupFields_name_perIdentifier (hlookup : g.config.lookup = .perIdentifier) :
    (g.lookupFields model).map FieldLine.name =
      (g.identifiers model).map fun identifier =>
        Naming.lookupQuery model.name identifier.1.name := by
  rw [lookupFields_name, lookupNames, hlookup]
  cases g.identifiers model <;> rfl

section Checked

variable (h : model.check = .ok ())

include h

theorem isIdentifier_of_mem_identifiers :
    ∀ identifier ∈ g.identifiers model, isIdentifier identifier.1.name := fun _ hmem =>
  (Model.wellFormed_of_check h).properties _
    (List.mem_filter.mp (property_of_mem_identifiers hmem)).1

theorem isIdentifier_of_mem_inputOperations :
    ∀ operation ∈ g.inputOperations model, isIdentifier operation.name := fun operation hmem =>
  (Model.wellFormed_of_check h).operations operation
    (List.mem_filter.mp (List.mem_filter.mp hmem).1).1

theorem inputOperations_name_nodup : ((g.inputOperations model).map Operation.name).Nodup :=
  (mutationNames_nodup h).sublist (List.filter_sublist.map Operation.name)

end Checked

/-- **Derived names of members.**  In a model that passes the rules, the queries by one
property have different names exactly when no two of the properties have the same words
in their names, and so have the inputs of operations. -/
theorem member_names_nodup_iff (h : model.check = .ok ()) :
    (g.config.lookup = .perIdentifier →
      (((g.lookupFields model).map FieldLine.name).Nodup ↔
        ∀ left ∈ g.identifiers model, ∀ right ∈ g.identifiers model,
          SameWords left.1.name right.1.name → left = right)) ∧
    (((g.inputOperations model).map fun operation => Naming.argsType operation.name).Nodup ↔
      ∀ left ∈ g.inputOperations model, ∀ right ∈ g.inputOperations model,
        SameWords left.name right.name → left = right) := by
  constructor
  · intro hlookup
    rw [lookupFields_name_perIdentifier hlookup]
    exact nodup_derived_iff (fun _ _ => Naming.lookupQuery_eq_iff)
      (isIdentifier_of_mem_identifiers h)
      (identifiers_name_nodup (Model.check_eq_ok_iff.mp h).2)
  · exact nodup_derived_iff (fun _ _ => Naming.argsType_eq_iff)
      (isIdentifier_of_mem_inputOperations h) (inputOperations_name_nodup h)

/-- So they do where members are called in camel case. -/
theorem member_names_nodup_of_camel (h : model.check = .ok ())
    (hproperties : ∀ property ∈ model.properties, camel property.name = property.name)
    (hoperations : ∀ operation ∈ model.operations, camel operation.name = operation.name) :
    (g.config.lookup = .perIdentifier → ((g.lookupFields model).map FieldLine.name).Nodup) ∧
      ((g.inputOperations model).map fun operation =>
        Naming.argsType operation.name).Nodup := by
  have hidentifiers := identifiers_name_nodup (g := g) (Model.check_eq_ok_iff.mp h).2
  constructor
  · intro hlookup
    rw [lookupFields_name_perIdentifier hlookup, nodup_derived_iff
      (fun _ _ => Naming.lookupQuery_eq_iff) (isIdentifier_of_mem_identifiers h) hidentifiers]
    exact eq_of_sameWords_of_camel (isIdentifier_of_mem_identifiers h) hidentifiers
      fun identifier hmem => hproperties _
        (List.mem_filter.mp (property_of_mem_identifiers hmem)).1
  · rw [nodup_derived_iff (fun _ _ => Naming.argsType_eq_iff)
      (isIdentifier_of_mem_inputOperations h) (inputOperations_name_nodup h)]
    exact eq_of_sameWords_of_camel (isIdentifier_of_mem_inputOperations h)
      (inputOperations_name_nodup h) fun operation hmem => hoperations operation
        (List.mem_filter.mp (List.mem_filter.mp hmem).1).1

/-- A model with properties and operations that differ in underscores only. -/
def account : Model where
  name := "Account"
  properties := [⟨"user_id", .scalar .integer { unique := true }⟩,
    ⟨"userId", .scalar .integer { unique := true }⟩]
  operations := [{ name := "close_now", arguments := [⟨"note", .scalar .string {}⟩]
                   returns := .scalar .boolean {} },
    { name := "closeNow", arguments := [⟨"at", .scalar .dateTime {}⟩]
      returns := .scalar .boolean {} }]

/-- A generator of one query for each identifying property. -/
def byEachProperty : Generator where
  config := { lookup := .perIdentifier }

/-- The rules let pass a model with two queries and two inputs of one name. -/
theorem account_names_collide : account.check = .ok () ∧
    byEachProperty.config.lookup = .perIdentifier ∧
    (byEachProperty.identifiers account).map (fun identifier => identifier.1.name) =
      ["user_id", "userId"] ∧
    (byEachProperty.lookupFields account).map FieldLine.name =
      ["accountByUserId", "accountByUserId"] ∧
    (byEachProperty.inputOperations account).map Operation.name = ["close_now", "closeNow"] ∧
    (byEachProperty.inputOperations account).map (fun operation =>
      Naming.argsType operation.name) = ["CloseNowArgs", "CloseNowArgs"] := by
  decide +kernel

theorem member_names_nodup_iff_account : account.check = .ok () ∧
    byEachProperty.config.lookup = .perIdentifier ∧
    (((byEachProperty.lookupFields account).map FieldLine.name).Nodup ↔
      ∀ left ∈ byEachProperty.identifiers account, ∀ right ∈ byEachProperty.identifiers account,
        SameWords left.1.name right.1.name → left = right) ∧
    (((byEachProperty.inputOperations account).map fun operation =>
      Naming.argsType operation.name).Nodup ↔
        ∀ left ∈ byEachProperty.inputOperations account,
          ∀ right ∈ byEachProperty.inputOperations account,
            SameWords left.name right.name → left = right) :=
  ⟨rfl, rfl, (member_names_nodup_iff rfl).1 rfl, (member_names_nodup_iff rfl).2⟩

end Generator
end Generate
end EntitySdl
