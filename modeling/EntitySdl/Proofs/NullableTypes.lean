import EntitySdl.Proofs.ComposedParts
import EntitySdl.Proofs.GeneratedSdl
import EntitySdl.Proofs.TypeReadings

/-! # Types that may be null

The result of a mutation may always be null, so the mark at the end of its type is taken
away.  That is done to the text of the type.  The same text comes out if null is allowed
in the type first: names do not end with the mark, and a list ends with its bracket, so
the mark that is taken away can only be the outermost one.
-/
namespace EntitySdl

open Name

namespace Sdl

theorem stripMark_eq_self {text : String} (h : text.toList.getLast? ≠ some '!') :
    stripMark text = text := by
  unfold stripMark
  split
  · rename_i rest hreverse
    rw [List.getLast?_eq_head?_reverse, hreverse] at h
    exact absurd rfl h
  · rfl

/-- To take the mark away from a type reference is to take it away from its text. -/
theorem TypeRef.text_optional (ref : TypeRef) : ref.optional.text = stripMark ref.text := by
  have hplain : ∀ text : String, text ++ mark false = text := fun text => String.append_empty
  cases ref with
  | named name required =>
    cases required with
    | true => exact (hplain name).trans (stripMark_append name).symm
    | false => rw [optional, text, text, hplain, hplain]
  | list member required =>
    have hopen : (TypeRef.list member false).text = "[" ++ member.text ++ "]" := hplain _
    rw [optional, hopen]
    cases required with
    | true => exact (stripMark_append _).symm
    | false =>
      rw [hopen, stripMark_eq_self]
      have hlast := getLast?_bracket member.text.toList
      simp [String.toList_append, hlast]

end Sdl

open Sdl

namespace Generate

variable {idScalar : IdScalar} {position : Position} {type : PropertyType}

/-- A type without the mark at its end is the type with null allowed. -/
theorem optionalSdlType_of_isNamed (h : type.IsNamed) :
    optionalSdlType idScalar position type = sdlType idScalar position type.nullable := by
  cases type with
  | object => rfl
  | array member flags =>
    have hlist : ∀ inner : Except Fault TypeRef,
        (inner >>= fun ref => pure (TypeRef.list ref !flags.allowNull)).map TypeRef.optional =
          inner >>= fun ref => pure (TypeRef.list ref false) := by
      intro inner
      cases inner <;> rfl
    exact hlist _
  | reference name flags | imported name flags =>
    exact congrArg Except.ok (optional_named (isIdentifier_modelType h) _)
  | scalar kind flags =>
    exact congrArg Except.ok (optional_named (kind.isIdentifier_sdlName idScalar) _)

theorem map_text_optionalSdlType :
    (optionalSdlType idScalar position type).map TypeRef.text =
      (sdlType idScalar position type).map fun ref => stripMark ref.text := by
  rw [optionalSdlType]
  cases sdlType idScalar position type with
  | error => rfl
  | ok ref => exact congrArg Except.ok ref.text_optional

/-- A mutation as it is written up to its result: the name of the operation, and the input
with its arguments, if there are any. -/
def mutationHead (operation : Operation) : String :=
  operation.name ++ if operation.arguments.isEmpty then "" else
    "(data: " ++ Naming.argsType operation.name ++ "!)"

namespace Generator

variable {g : Generator} {model : Model} {operation : Operation}

/-- The line of a mutation with a result that allows null. -/
def nullableMutation (g : Generator) (model : Model) (operation : Operation) :
    Except Fault String :=
  ((sdlType g.config.idScalar .output operation.returns.nullable).mapError
    (Fault.atField model.name operation.name)).map fun ref =>
      mutationHead operation ++ ": " ++ ref.text

theorem text_of_isMutation {field : FieldLine} (h : IsMutation g operation field) :
    field.text = mutationHead operation ++ ": " ++ field.type.text := by
  have harguments := h.arguments
  rw [FieldLine.text, h.name, h.directive, mutationHead]
  cases hoperation : operation.arguments with
  | nil =>
    rw [hoperation] at harguments
    simp [harguments]
  | cons argument rest =>
    rw [hoperation] at harguments
    have hdata : "(" ++ ("data: " ++ (Naming.argsType operation.name ++ "!")) ++ ")" =
        "(data: " ++ Naming.argsType operation.name ++ "!)" := by
      rw [← String.toList_inj]
      simp [String.toList_append]
    simpa [harguments, TypeRef.text, TypeRef.mark] using hdata

/-- The line of a mutation, or its fault, is that of a result that allows null. -/
theorem map_text_mutationField (h : operation.returns.IsNamed) :
    (g.mutationField model operation).map FieldLine.text =
      g.nullableMutation model operation := by
  rw [nullableMutation, ← optionalSdlType_of_isNamed h]
  cases htype : (optionalSdlType g.config.idScalar .output operation.returns).mapError
      (Fault.atField model.name operation.name) with
  | error fault =>
    rw [mutationField, htype]
    rfl
  | ok type =>
    obtain ⟨field, hfield, rfl⟩ :
        ∃ field, g.mutationField model operation = .ok field ∧ field.type = type := by
      rw [mutationField, htype]
      exact ⟨_, rfl, rfl⟩
    rw [hfield]
    exact congrArg Except.ok (text_of_isMutation (isMutation_of_mutationField hfield))

theorem map_text_mutationFields (h : ∀ operation ∈ g.operations model, operation.returns.IsNamed) :
    (g.mutationFields model).map (List.map FieldLine.text) =
      (g.operations model).mapM (g.nullableMutation model) := by
  rw [mutationFields]
  generalize g.operations model = operations at h ⊢
  induction operations with
  | nil => rfl
  | cons operation rest ih =>
    obtain ⟨hoperation, hrest⟩ := List.forall_mem_cons.mp h
    rw [List.mapM_cons, List.mapM_cons, ← map_text_mutationField hoperation, ← ih hrest]
    cases g.mutationField model operation with
    | error => rfl
    | ok field => cases rest.mapM (g.mutationField model) <;> rfl

end Generator

/-- **Types that may be null.**  If the models in a type are called by identifiers, the type
without the mark at its end is the type with null allowed, and so is its text: in both
positions, under both conventions for identifiers, and with the same fault where there is
no type.  So each mutation of a model is written with the type of its result, in which
null is allowed outermost. -/
theorem nullable_types :
    (∀ idScalar position type, PropertyType.IsNamed type →
      optionalSdlType idScalar position type = sdlType idScalar position type.nullable ∧
      (sdlType idScalar position type).map (fun ref => stripMark ref.text) =
        (sdlType idScalar position type.nullable).map TypeRef.text) ∧
    ∀ (g : Generator) (model : Model),
      (∀ operation ∈ g.operations model, operation.returns.IsNamed) →
      (g.mutationFields model).map (List.map FieldLine.text) =
        (g.operations model).mapM (g.nullableMutation model) := by
  refine ⟨fun idScalar position type h => ?_, fun g model => Generator.map_text_mutationFields⟩
  have htypes := @optionalSdlType_of_isNamed idScalar position type h
  exact ⟨htypes, by rw [← map_text_optionalSdlType, htypes]⟩

/-- Nested lists of a model, none of them null. -/
def rows : PropertyType := .array (.array (.reference "Book" {}) {}) {}

/-- A model with an operation that returns nested lists, and one whose result may be null. -/
def rack : Model where
  name := "Rack"
  operations := [{ name := "sort_by", arguments := [⟨"key", .scalar .string {}⟩], returns := rows },
    { name := "newest", returns := .imported "Book" { allowNull := true } }]

theorem nullable_types_rack : rows.IsNamed ∧
    (sdlType .uuid .input rows).map (fun ref => stripMark ref.text) = .ok "[[BookInput!]!]" ∧
    (∀ operation ∈ ({} : Generator).operations rack, operation.returns.IsNamed) ∧
      (({} : Generator).mutationFields rack).map (List.map FieldLine.text) =
        .ok ["sort_by(data: SortByArgs!): [[Book!]!]", "newest: Book"] := by
  have hbook : isIdentifier "Book" := by decide
  have hnamed : ∀ operation ∈ ({} : Generator).operations rack, operation.returns.IsNamed := by
    rintro operation (_ | ⟨_, _ | ⟨_, _ | _⟩⟩)
    · exact hbook
    · exact hbook
  exact ⟨hbook, (nullable_types.1 .uuid .input rows hbook).2.trans rfl, hnamed,
    (nullable_types.2 {} rack hnamed).trans (by decide +kernel)⟩

/-- A name that is no identifier may end with the mark, and lose it. -/
example : (optionalSdlType .id .output (.reference "Book!" { allowNull := true })).map
    TypeRef.text = .ok "Book" := rfl

end Generate
end EntitySdl
