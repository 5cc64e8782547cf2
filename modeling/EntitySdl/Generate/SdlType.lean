import EntitySdl.Generate.Naming
import EntitySdl.Sdl.TypeRef
import EntitySdl.Schema.PropertyType
import EntitySdl.Fault

/-! # The SDL type of a property type

Scalars have a fixed SDL scalar each, lists and models keep their shape, and a
free-form object has no SDL type at any depth.  In an input, a model is replaced
by its input type.
-/
namespace EntitySdl
namespace Generate

open Sdl

/-- Where a type is used. -/
inductive Position where
  /-- In the fields of a type and as the result of a root field. -/
  | output
  /-- In the fields of an input and as an argument. -/
  | input
  deriving DecidableEq

/-- Whether a name is that of an SDL scalar which stands for a scalar kind. -/
def isBaseScalar (idScalar : IdScalar) (name : String) : Bool :=
  ["String", "Boolean", "Date", "Float", "Int", "ID"].contains name ||
    (idScalar == .uuid && name == idScalar.sdlName)

/-- The name of a model's type in a position. -/
def modelType (idScalar : IdScalar) (position : Position) (name : String) : String :=
  if position = .input ∧ !isBaseScalar idScalar name then Naming.inputType name else name

/-- The SDL type of a property type, never null unless the type allows it. -/
def sdlType (idScalar : IdScalar) (position : Position) : PropertyType → Except Fault TypeRef
  | .object _ => .error (.unsupportedType "Object")
  | .array member flags => do
    return .list (← sdlType idScalar position member) !flags.allowNull
  | .reference name flags | .imported name flags =>
    .ok (.named (modelType idScalar position name) !flags.allowNull)
  | .scalar kind flags => .ok (.named (kind.sdlName idScalar) !flags.allowNull)

/-- The SDL type of a property type without the mark at its end. -/
def optionalSdlType (idScalar : IdScalar) (position : Position) (type : PropertyType) :
    Except Fault TypeRef :=
  (sdlType idScalar position type).map TypeRef.optional

end Generate
end EntitySdl
