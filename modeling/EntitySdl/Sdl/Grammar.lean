import EntitySdl.Sdl.Peg
import EntitySdl.Name.Identifier

/-! # The grammar of type system documents

A document is a sequence of definitions: the schema, types of six kinds, and
directives, each of which may also extend an earlier one.  Keywords are fixed
texts and need no blank behind them.
-/
namespace EntitySdl
namespace Sdl

/-- The rules of the grammar, in the order in which reports list them. -/
inductive Rule where
  | finish
  | document
  | definition
  | schemaDefinition
  | rootDefinition
  | typeDefinition
  | scalarType
  | objectType
  | implementsInterfaces
  | interfaceType
  | fieldsDefinition
  | fieldDefinition
  | unionType
  | unionMemberTypes
  | enumType
  | enumValues
  | enumValueDefinition
  | inputObjectType
  | inputFieldsDefinition
  | extend
  | directiveDefinition
  | repeatable
  | directiveLocations
  | directiveLocation
  | argumentsDefinition
  | inputValueDefinition
  | operationType
  | defaultValue
  | typeRef
  | constValue
  | number
  | string
  | blockStringContent
  | stringContent
  | boolean
  | null
  | enumValue
  | constList
  | constObject
  | constObjectField
  | constDirectives
  | constDirective
  | constArguments
  | constArgument
  | name
  deriving DecidableEq

namespace Rule

/-- All rules, in the order in which reports list them. -/
def all : List Rule :=
  [finish, document, definition, schemaDefinition, rootDefinition, typeDefinition, scalarType,
   objectType, implementsInterfaces, interfaceType, fieldsDefinition, fieldDefinition, unionType,
   unionMemberTypes, enumType, enumValues, enumValueDefinition, inputObjectType,
   inputFieldsDefinition, extend, directiveDefinition, repeatable, directiveLocations,
   directiveLocation, argumentsDefinition, inputValueDefinition, operationType, defaultValue,
   typeRef, constValue, number, string, blockStringContent, stringContent, boolean, null,
   enumValue, constList, constObject, constObjectField, constDirectives, constDirective,
   constArguments, constArgument, name]

/-- How a report names a rule. -/
def title : Rule → String
  | finish => "EOI"
  | document => "service_document"
  | definition => "type_system_definition"
  | schemaDefinition => "schema_definition"
  | rootDefinition => "operation_type_definition"
  | typeDefinition => "type_definition"
  | scalarType => "scalar_type"
  | objectType => "object_type"
  | implementsInterfaces => "implements_interfaces"
  | interfaceType => "interface_type"
  | fieldsDefinition => "fields_definition"
  | fieldDefinition => "field_definition"
  | unionType => "union_type"
  | unionMemberTypes => "union_member_types"
  | enumType => "enum_type"
  | enumValues => "enum_values"
  | enumValueDefinition => "enum_value_definition"
  | inputObjectType => "input_object_type"
  | inputFieldsDefinition => "input_fields_definition"
  | extend => "extend"
  | directiveDefinition => "directive_definition"
  | repeatable => "repeatable"
  | directiveLocations => "directive_locations"
  | directiveLocation => "directive_location"
  | argumentsDefinition => "arguments_definition"
  | inputValueDefinition => "input_value_definition"
  | operationType => "operation_type"
  | defaultValue => "default_value"
  | typeRef => "type_"
  | constValue => "const_value"
  | number => "number"
  | string => "string"
  | blockStringContent => "block_string_content"
  | stringContent => "string_content"
  | boolean => "boolean"
  | null => "null"
  | enumValue => "enum_value"
  | constList => "const_list"
  | constObject => "const_object"
  | constObjectField => "const_object_field"
  | constDirectives => "const_directives"
  | constDirective => "const_directive"
  | constArguments => "const_arguments"
  | constArgument => "const_argument"
  | name => "name"

/-- Whether the text of a rule's match matters beside the rules inside it. -/
def isToken : Rule → Bool
  | operationType | directiveLocation | repeatable | typeRef | number | blockStringContent
  | stringContent | boolean | null | name => true
  | _ => false

end Rule

namespace Grammar

open Peg Text Name

/-- An expression between two texts. -/
def between (opening closing : String) (inner : Peg Rule) : Peg Rule :=
  seqOf [word opening, inner, word closing]

/-- An expression, and further ones behind a separator. -/
def separated (separator : String) (inner : Peg Rule) : Peg Rule :=
  .seq inner (.many (.seq (word separator) inner))

/-- The description that most definitions may begin with. -/
def description : Peg Rule := .optional (.rule .string)

/-- The directives that most definitions may carry. -/
def directives : Peg Rule := .optional (.rule .constDirectives)

/-- A definition by a keyword, or its extension. -/
def defined (keyword : String) (plain extension : List (Peg Rule)) : Peg Rule :=
  .choice (seqOf (description :: word keyword :: .rule .name :: plain))
    (seqOf (.rule .extend :: word keyword :: .rule .name :: extension))

/-- An extension by directives, by a body, or by both. -/
def directivesOrBody (body : Rule) : Peg Rule :=
  .choice (.seq directives (.rule body)) (.rule .constDirectives)

/-- The root types of a schema. -/
def rootTypes : Peg Rule := between "\x7b" "\x7d" (Peg.oneOrMore (.rule .rootDefinition))

/-- A digit. -/
def digit : Peg Rule := .charWhere isAsciiDigit

/-- A whole number. -/
def whole : Peg Rule :=
  .seq (.optional (word "-"))
    (.choice (word "0") (.seq (.charWhere fun c => isAsciiDigit c && c != '0') (.many digit)))

/-- The fraction of a number. -/
def fraction : Peg Rule := .seq (word ".") (Peg.oneOrMore digit)

/-- The exponent of a number. -/
def exponent : Peg Rule :=
  seqOf [.charWhere fun c => c == 'E' || c == 'e',
    .optional (.charWhere fun c => c == '+' || c == '-'), Peg.oneOrMore digit]

/-- A character of a block string. -/
def blockCharacter : Peg Rule :=
  .choice
    (.seq (.never (.choice (word "\"\"\"") (word "\\\"\"\""))) (.charWhere fun _ => true))
    (word "\\\"\"\"")

/-- The four digits of an escape, which do not denote a surrogate. -/
def scalarDigits : Peg Rule :=
  let hexDigit : Peg Rule := .charWhere isAsciiHexDigit
  .seq
    (.never (.seq (.charWhere fun c => c == 'd' || c == 'D')
      (.charWhere fun c => isAsciiHexDigit c && 8 ≤ digitValue c)))
    (seqOf [hexDigit, hexDigit, hexDigit, hexDigit])

/-- A character of a string. -/
def stringCharacter : Peg Rule :=
  firstOf
    [.charWhere fun c => c != '"' && c != '\\' && !isLineEnd c,
     .seq (word "\\") (.charWhere ['"', '\\', '/', 'b', 'f', 'n', 'r', 't'].contains),
     .seq (word "\\u") scalarDigits]

/-- The expression of a rule. -/
def body : Rule → Peg Rule
  | .finish => .finish
  | .document => seqOf [word "", Peg.oneOrMore (.rule .definition), .rule .finish]
  | .definition => firstOf
    [.rule .schemaDefinition, .rule .typeDefinition, .rule .directiveDefinition]
  | .schemaDefinition => .choice (seqOf [word "schema", directives, rootTypes])
    (seqOf [.rule .extend, word "schema",
      .choice (.seq directives rootTypes) (.rule .constDirectives)])
  | .rootDefinition => seqOf [.rule .operationType, word ":", .rule .name]
  | .typeDefinition => firstOf
    [.rule .scalarType, .rule .objectType, .rule .interfaceType, .rule .unionType,
     .rule .enumType, .rule .inputObjectType]
  | .scalarType => defined "scalar" [directives] [.rule .constDirectives]
  | .objectType => defined "type"
    [.optional (.rule .implementsInterfaces), directives, .optional (.rule .fieldsDefinition)]
    [.choice (.seq (.optional (.rule .implementsInterfaces)) (directivesOrBody .fieldsDefinition))
      (.rule .implementsInterfaces)]
  | .implementsInterfaces =>
    seqOf [word "implements", .optional (word "&"), separated "&" (.rule .name)]
  | .interfaceType => defined "interface"
    [.optional (.rule .implementsInterfaces), directives, .optional (.rule .fieldsDefinition)]
    [.optional (.rule .implementsInterfaces), directivesOrBody .fieldsDefinition]
  | .fieldsDefinition => between "\x7b" "\x7d" (Peg.oneOrMore (.rule .fieldDefinition))
  | .fieldDefinition => seqOf
    [description, .rule .name, .optional (.rule .argumentsDefinition), word ":", .rule .typeRef,
     directives]
  | .unionType => defined "union" [directives, .optional (.rule .unionMemberTypes)]
    [directivesOrBody .unionMemberTypes]
  | .unionMemberTypes => seqOf [word "=", .optional (word "|"), separated "|" (.rule .name)]
  | .enumType => defined "enum" [directives, .optional (.rule .enumValues)]
    [directivesOrBody .enumValues]
  | .enumValues => between "\x7b" "\x7d" (Peg.oneOrMore (.rule .enumValueDefinition))
  | .enumValueDefinition => seqOf [description, .rule .enumValue, directives]
  | .inputObjectType => defined "input" [directives, .optional (.rule .inputFieldsDefinition)]
    [directivesOrBody .inputFieldsDefinition]
  | .inputFieldsDefinition => between "\x7b" "\x7d" (Peg.oneOrMore (.rule .inputValueDefinition))
  | .extend => word "extend"
  | .directiveDefinition => seqOf
    [description, word "directive", word "@", .rule .name,
     .optional (.rule .argumentsDefinition), .rule .repeatable, word "on",
     .rule .directiveLocations]
  | .repeatable => .optional (word "repeatable")
  | .directiveLocations => .seq (.optional (word "|")) (separated "|" (.rule .directiveLocation))
  | .directiveLocation => firstOf (
    ["QUERY", "MUTATION", "SUBSCRIPTION", "FIELD_DEFINITION", "FIELD", "FRAGMENT_DEFINITION",
     "FRAGMENT_SPREAD", "INLINE_FRAGMENT", "VARIABLE_DEFINITION", "SCHEMA", "SCALAR", "OBJECT",
     "ARGUMENT_DEFINITION", "INTERFACE", "UNION", "ENUM_VALUE", "ENUM", "INPUT_OBJECT",
     "INPUT_FIELD_DEFINITION"].map word)
  | .argumentsDefinition => between "(" ")" (Peg.oneOrMore (.rule .inputValueDefinition))
  | .inputValueDefinition => seqOf
    [description, .rule .name, word ":", .rule .typeRef, .optional (.rule .defaultValue),
     directives]
  | .operationType => firstOf [word "query", word "mutation", word "subscription"]
  | .defaultValue => .seq (word "=") (.rule .constValue)
  | .typeRef =>
    .seq (.choice (.rule .name) (between "[" "]" (.rule .typeRef))) (.optional (word "!"))
  | .constValue => firstOf
    [.rule .number, .rule .string, .rule .boolean, .rule .null, .rule .enumValue,
     .rule .constList, .rule .constObject]
  | .number => .seq
    (.choice (.seq whole (firstOf [.seq fraction exponent, fraction, exponent])) whole)
    (.never (.charWhere isNameStart))
  | .string => .choice (between "\"\"\"" "\"\"\"" (.rule .blockStringContent))
    (between "\"" "\"" (.rule .stringContent))
  | .blockStringContent => .many blockCharacter
  | .stringContent => .many stringCharacter
  | .boolean => .choice (word "true") (word "false")
  | .null => word "null"
  | .enumValue => .seq (.never (.choice (.rule .boolean) (.rule .null))) (.rule .name)
  | .constList => between "[" "]" (.many (.rule .constValue))
  | .constObject => between "\x7b" "\x7d" (.many (.rule .constObjectField))
  | .constObjectField => seqOf [.rule .name, word ":", .rule .constValue]
  | .constDirectives => Peg.oneOrMore (.rule .constDirective)
  | .constDirective => seqOf [word "@", .rule .name, .optional (.rule .constArguments)]
  | .constArguments => between "(" ")" (Peg.oneOrMore (.rule .constArgument))
  | .constArgument => seqOf [.rule .name, word ":", .rule .constValue]
  | .name => .seq (.charWhere isNameStart) (.many (.charWhere isNamePart))

/-- The grammar.  Names, type references, numbers and the contents of strings are
tokens; a string and the value of an enumeration have no blanks inside. -/
def sdl : Grammar Rule := fun rule =>
  match rule with
  | .typeRef | .number | .blockStringContent | .stringContent | .name =>
    { mode := some .token, body := body rule }
  | .string | .enumValue => { mode := some .tight, wholeInMode := true, body := body rule }
  | _ => { mode := none, body := body rule }

end Grammar
end Sdl
end EntitySdl
