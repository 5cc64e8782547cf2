import EntitySdl.Proofs.ClosedDocument

/-! # The texts of types

A type reference is written as a name, or as the text of another one in brackets, with
or without the mark behind it.  The types of a schema are written so exactly when the
names of models in them are identifiers.  The rules for schemas do not see to that: they
look at the targets of relations, but never into a type.
-/
namespace EntitySdl

open Name Text

namespace Sdl

/-- The texts of type references. -/
inductive IsTypeText : List Char → Prop where
  /-- A name, with or without the mark. -/
  | name {name : List Char} (h : isIdentifierText name) (required : Bool) :
      IsTypeText (name ++ (TypeRef.mark required).toList)
  /-- A text in brackets, with or without the mark. -/
  | list {member : List Char} (h : IsTypeText member) (required : Bool) :
      IsTypeText ('[' :: (member ++ (']' :: (TypeRef.mark required).toList)))

section Texts

variable {name cs : List Char} {required : Bool}

/-- The mark can be told from what stands before it, if that does not end with an
exclamation mark. -/
theorem append_mark_inj {left right : List Char} {required required' : Bool}
    (hleft : left.getLast? ≠ some '!') (hright : right.getLast? ≠ some '!')
    (h : left ++ (TypeRef.mark required).toList = right ++ (TypeRef.mark required').toList) :
    left = right ∧ required = required' := by
  have hmark : ∀ cs : List Char, cs ++ (TypeRef.mark true).toList = cs ++ ['!'] := fun _ => rfl
  have hnone : ∀ cs : List Char, cs ++ (TypeRef.mark false).toList = cs := List.append_nil
  cases required <;> cases required' <;> simp only [hmark, hnone] at h
  · exact ⟨h, rfl⟩
  · rw [h, List.getLast?_concat] at hleft
    exact absurd rfl hleft
  · rw [← h, List.getLast?_concat] at hright
    exact absurd rfl hright
  · exact ⟨List.append_cancel_right h, rfl⟩

theorem getLast?_ne_mark_of_name (h : isIdentifierText name) : name.getLast? ≠ some '!' := by
  intro hlast
  cases Grammar.isNamePart_of_mem_name h '!' (List.mem_of_getLast? hlast)

theorem getLast?_bracket (member : List Char) : ('[' :: (member ++ [']'])).getLast? = some ']' := by
  rw [← List.cons_append, List.getLast?_concat]

/-- A list is written well when its members are. -/
theorem isTypeText_list_iff {member : List Char} :
    IsTypeText ('[' :: (member ++ (']' :: (TypeRef.mark required).toList))) ↔
      IsTypeText member := by
  have hsplit : ∀ (member : List Char) (required : Bool),
      '[' :: (member ++ (']' :: (TypeRef.mark required).toList)) =
        '[' :: (member ++ [']']) ++ (TypeRef.mark required).toList := by simp
  refine ⟨fun h => ?_, fun h => .list h required⟩
  generalize hcs : '[' :: (member ++ (']' :: (TypeRef.mark required).toList)) = cs at h
  cases h with
  | @name name hname required' =>
    rw [hsplit] at hcs
    obtain ⟨rfl, -⟩ := append_mark_inj (by rw [getLast?_bracket]; simp)
      (getLast?_ne_mark_of_name hname) hcs
    cases hname
  | @list member' hmember required' =>
    rw [hsplit, hsplit] at hcs
    obtain ⟨hmember', -⟩ := append_mark_inj (by rw [getLast?_bracket]; simp)
      (by rw [getLast?_bracket]; simp) hcs
    rwa [List.append_cancel_right (List.cons.inj hmember').2]

/-- A text that ends neither with a bracket nor with a mark is written well when it is a
name. -/
theorem isTypeText_name_iff (hbracket : name.getLast? ≠ some ']')
    (hmark : name.getLast? ≠ some '!') :
    IsTypeText (name ++ (TypeRef.mark required).toList) ↔ isIdentifierText name := by
  refine ⟨fun h => ?_, fun h => .name h required⟩
  generalize hcs : name ++ (TypeRef.mark required).toList = cs at h
  cases h with
  | name hname =>
    obtain ⟨rfl, -⟩ := append_mark_inj hmark (getLast?_ne_mark_of_name hname) hcs
    exact hname
  | @list member _ required' =>
    have hsplit : '[' :: (member ++ (']' :: (TypeRef.mark required').toList)) =
        '[' :: (member ++ [']']) ++ (TypeRef.mark required').toList := by simp
    rw [hsplit] at hcs
    obtain ⟨rfl, -⟩ := append_mark_inj hmark (by rw [getLast?_bracket]; simp) hcs
    exact absurd (getLast?_bracket member) hbracket

end Texts

end Sdl

open Sdl

namespace Generate

variable {idScalar : IdScalar} {position : Position} {type : PropertyType} {ref : TypeRef}

theorem isIdentifier_of_isBaseScalar {name : String} (h : isBaseScalar idScalar name) :
    isIdentifier name := by
  have hall : ∀ name ∈ ["String", "Boolean", "Date", "Float", "Int", "ID"], isIdentifier name := by
    decide
  rw [isBaseScalar, Bool.or_eq_true, Bool.and_eq_true, beq_iff_eq, beq_iff_eq] at h
  rcases h with h | ⟨rfl, rfl⟩
  · exact hall name (List.contains_iff_mem.mp h)
  · decide

/-- In both positions, a model is written well only under an identifier.  The text of an
input alone would not do, for the name that the empty one gives is `Input`. -/
theorem isIdentifier_of_isTypeText {name : String} {required : Bool}
    (h : ∀ position, IsTypeText (TypeRef.named (modelType idScalar position name)
      required).text.toList) : isIdentifier name := by
  by_cases hscalar : isBaseScalar idScalar name
  · exact isIdentifier_of_isBaseScalar hscalar
  · have hinput := h .input
    have hname : modelType idScalar .input name = name ++ "Input" := by
      simp [modelType, hscalar, Naming.inputType]
    have hlast : (name.toList ++ "Input".toList).getLast? = some 't' := by
      rw [List.getLast?_append]
      rfl
    rw [TypeRef.text, String.toList_append, hname, String.toList_append,
      isTypeText_name_iff (by rw [hlast]; simp) (by rw [hlast]; simp)] at hinput
    cases hcs : name.toList with
    | nil =>
      -- the empty name is no text of a type
      have houtput := h .output
      have hname : modelType idScalar .output name = name := by simp [modelType]
      rw [TypeRef.text, String.toList_append, hname, hcs] at houtput
      have := (@isTypeText_name_iff [] required (by simp) (by simp)).mp houtput
      cases this
    | cons c cs =>
      rw [hcs] at hinput
      simp only [List.cons_append, isIdentifierText, List.all_append, Bool.and_eq_true] at hinput
      rw [isIdentifier, hcs, isIdentifierText, hinput.1, hinput.2.1]
      rfl

/-- The texts of a type, in both positions. -/
def HasTypeTexts (idScalar : IdScalar) (type : PropertyType) : Prop :=
  ∀ position ref, sdlType idScalar position type = .ok ref → IsTypeText ref.text.toList

theorem isTypeText_text (h : ref.IsNamed) : IsTypeText ref.text.toList := by
  induction ref with
  | named name required =>
    rw [TypeRef.text, String.toList_append]
    exact .name h required
  | list member required ih =>
    have hmember := (ih h).list required
    simpa [TypeRef.text, String.toList_append] using hmember

/-- **The texts of a type.**  They are written well when all names of models in it are
identifiers, and only then. -/
theorem hasTypeTexts_iff : HasTypeTexts idScalar type ↔ type.IsNamed := by
  refine ⟨fun h => ?_, fun h position ref href => isTypeText_text (isNamed_sdlType h href)⟩
  induction type with
  | object | scalar => trivial
  | array member flags ih =>
    refine ih fun position ref href => ?_
    have hlist : sdlType idScalar position (.array member flags) =
        .ok (.list ref !flags.allowNull) := by
      rw [sdlType, href]
      rfl
    have htext := h position _ hlist
    simp only [TypeRef.text, String.toList_append, List.append_assoc] at htext
    exact isTypeText_list_iff.mp htext
  | reference name flags | imported name flags =>
    exact isIdentifier_of_isTypeText fun position => h position _ rfl

end Generate

section Retyping

variable (f : PropertyType → PropertyType)

/-- A property with another type. -/
def Property.retype (property : Property) : Property := { property with type := f property.type }

/-- An operation with other types for its arguments and its result. -/
def Operation.retype (operation : Operation) : Operation :=
  { operation with
    arguments := operation.arguments.map (Property.retype f), returns := f operation.returns }

/-- A model with other types for its members. -/
def Model.retype (model : Model) : Model :=
  { model with
    properties := model.properties.map (Property.retype f),
    operations := model.operations.map (Operation.retype f) }

/-- A schema with other types for the members of its models. -/
def Schema.retype (schema : Schema) : Schema := { models := schema.models.map (Model.retype f) }

theorem Operation.checkArguments_retype (operation : String) (arguments : List Property)
    (taken : List String) :
    checkArguments operation (arguments.map (Property.retype f)) taken =
      checkArguments operation arguments taken := by
  induction arguments generalizing taken with
  | nil => rfl
  | cons argument rest ih =>
    rw [List.map_cons, checkArguments, checkArguments, ih]
    rfl

theorem Operation.check_retype (operation : Operation) :
    (operation.retype f).check = operation.check := by
  simp only [check, retype, checkArguments_retype]

/-- Members that keep their names and pass or break the same rules as before. -/
theorem Model.checkMembers_map {α : Type} {change : α → α} {name : α → String}
    {check : α → Except Violation Unit} (hname : ∀ member, name (change member) = name member)
    (hcheck : ∀ member, check (change member) = check member) (model : String) (kind : MemberKind)
    (members : List α) (taken : List String) :
    checkMembers model kind name check (members.map change) taken =
      checkMembers model kind name check members taken := by
  induction members generalizing taken with
  | nil => rfl
  | cons member rest ih => rw [List.map_cons, checkMembers, checkMembers, hname, hcheck, ih]

theorem Model.check_retype (model : Model) : (model.retype f).check = model.check := by
  have hproperties := @checkMembers_map Property (.retype f) Property.name Property.check
    (fun _ => rfl) (fun _ => rfl) model.name .property model.properties []
  have hoperations := @checkMembers_map Operation (.retype f) Operation.name Operation.check
    (fun _ => rfl) (Operation.check_retype f) model.name .operation model.operations []
  simp only [check, retype, hproperties, hoperations]

/-- The rules for schemas do not depend on the types of members. -/
theorem Schema.check_retype (schema : Schema) : (schema.retype f).check = schema.check := by
  have hmodels : ∀ models taken,
      checkModels (models.map (Model.retype f)) taken = checkModels models taken := by
    intro models
    induction models with
    | nil => exact fun _ => rfl
    | cons model rest ih =>
      intro taken
      rw [List.map_cons, checkModels, checkModels, ih, Model.check_retype]
      rfl
  exact hmodels schema.models []

end Retyping

open Generate in
/-- **The texts of the types of a schema.**  Whatever scalar stands for identifiers, they
are written well when all names of models in the types are identifiers, and only then.
The rules for schemas do not ask for that: no change of the types changes their verdict. -/
theorem Schema.typeTexts_iff (schema : Schema) (idScalar : IdScalar) :
    ((∀ model ∈ schema.models, ∀ type ∈ model.types, HasTypeTexts idScalar type) ↔
      ∀ model ∈ schema.models, ∀ type ∈ model.types, type.IsNamed) ∧
    ∀ f, (schema.retype f).check = schema.check := by
  refine ⟨?_, fun f => schema.check_retype f⟩
  simp only [hasTypeTexts_iff]

open Generate in
/-- A schema that passes the rules, with a field whose type is written in two words. -/
example :
    let author : Property := ⟨"author", .reference "Some One" {}⟩
    Schema.check { models := [{ name := "Book", properties := [author] }] } = .ok () ∧
      (sdlType .id .output author.type).map TypeRef.text = .ok "Some One!" :=
  ⟨by decide, rfl⟩

end EntitySdl
