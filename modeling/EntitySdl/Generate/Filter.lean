import EntitySdl.Generate.Generator
import EntitySdl.Sdl.Block

/-! # Filters

The filter of a model has a field for each scalar property and each operator of
its kind, after two fields that combine filters.  The unique filter has a field
for each identifying property.  A filter without fields is not generated.
-/
namespace EntitySdl
namespace Generate

open Sdl

/-- The comparisons that filters offer. -/
inductive Operator where
  | lessThan
  | greaterThan
  | contains
  | notContains
  | startsWith
  | endsWith
  | isIn
  | equals
  | notEquals
  deriving DecidableEq

/-- The name of an operator in a field name. -/
def Operator.name : Operator → String
  | lessThan => "lessThan"
  | greaterThan => "greaterThan"
  | contains => "contains"
  | notContains => "notContains"
  | startsWith => "startsWith"
  | endsWith => "endsWith"
  | isIn => "in"
  | equals => "equals"
  | notEquals => "notEquals"

/-- The operators of a scalar kind. -/
def operators : ScalarKind → List Operator
  | .integer | .decimal | .dateTime => [.lessThan, .greaterThan, .equals, .notEquals]
  | .string => [.contains, .notContains, .startsWith, .endsWith, .equals, .notEquals]
  | .boolean => [.equals, .notEquals]
  | .uniqueIdentifier => [.isIn, .equals, .notEquals]
  | .binary => []

/-- What an operator compares a scalar with. -/
def Operator.operand (scalar : String) : Operator → TypeRef
  | isIn => .list (.named scalar false) false
  | _ => .named scalar false

namespace Generator

/-- The fields of a filter that compare properties. -/
def filterFields (g : Generator) (model : Model) : List FieldLine :=
  (g.properties model).flatMap fun property =>
    match property.type.scalarKind? with
    | none => []
    | some kind => (operators kind).map fun operator =>
      { name := property.name ++ "_" ++ operator.name
        type := operator.operand (kind.sdlName g.config.idScalar) }

/-- The filter of a model, if it has properties to filter by. -/
def filterInput (g : Generator) (model : Model) : Option Block :=
  match g.filterFields model with
  | [] => none
  | fields =>
    let name := Naming.filterType model.name
    let combined : TypeRef := .list (.named name true) false
    some { kind := .input, name := name
           fields := { name := "or", type := combined } ::
             { name := "and", type := combined } :: fields }

/-- The filter that picks a single record, if there are identifying
properties. -/
def uniqueFilterInput (g : Generator) (model : Model) : Option Block :=
  match g.identifiers model with
  | [] => none
  | identifiers => some
    { kind := .input, name := Naming.uniqueFilterType model.name
      fields := identifiers.map fun (property, kind) =>
        { name := property.name, type := .named (kind.sdlName g.config.idScalar) false } }

end Generator
end Generate
end EntitySdl
