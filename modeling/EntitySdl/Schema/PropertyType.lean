import EntitySdl.Datum.Malformed
import EntitySdl.Text.Blank

/-! # Property types

A property type is a scalar, a list of another type, a model of the same or of
another schema, or a free-form object.  It may allow null, and it may be marked
as a primary key or as unique.
-/
namespace EntitySdl

/-- The scalar property types. -/
inductive ScalarKind where
  | binary
  | boolean
  | dateTime
  | decimal
  | integer
  | string
  | uniqueIdentifier
  deriving DecidableEq

namespace ScalarKind

/-- All scalar kinds, in the order of their names. -/
def all : List ScalarKind :=
  [binary, boolean, dateTime, decimal, integer, string, uniqueIdentifier]

/-- The name of a scalar kind in a schema. -/
def typeName : ScalarKind → String
  | binary => "Binary"
  | boolean => "Boolean"
  | dateTime => "DateTime"
  | decimal => "Decimal"
  | integer => "Integer"
  | string => "String"
  | uniqueIdentifier => "UniqueIdentifier"

/-- The scalar kind of a name. -/
def ofTypeName? (name : String) : Option ScalarKind :=
  all.find? fun kind => kind.typeName == name

theorem ofTypeName?_typeName (kind : ScalarKind) : ofTypeName? kind.typeName = some kind := by
  cases kind <;> decide

end ScalarKind

/-- The SDL scalar that stands for unique identifiers. -/
inductive IdScalar where
  /-- The built-in `ID`. -/
  | id
  /-- A scalar `UUID`, which a merged document declares. -/
  | uuid
  deriving DecidableEq, Inhabited

/-- The SDL name of an identifier scalar. -/
def IdScalar.sdlName : IdScalar → String
  | id => "ID"
  | uuid => "UUID"

/-- The SDL name of a scalar kind. -/
def ScalarKind.sdlName (idScalar : IdScalar) : ScalarKind → String
  | binary => "String"
  | boolean => "Boolean"
  | dateTime => "Date"
  | decimal => "Float"
  | integer => "Int"
  | string => "String"
  | uniqueIdentifier => idScalar.sdlName

/-- What may be said of a property beside its shape. -/
structure Flags where
  /-- The value may be null. -/
  allowNull : Bool := false
  /-- The property is the primary key of its model. -/
  isPrimaryKey : Bool := false
  /-- No two records share a value. -/
  unique : Bool := false
  deriving DecidableEq, Inhabited

/-- The type of a property, an argument or a result. -/
inductive PropertyType where
  /-- A free-form object, which the SDL cannot express. -/
  | object (flags : Flags)
  /-- A list of another type. -/
  | array (member : PropertyType) (flags : Flags)
  /-- A model of the same schema. -/
  | reference (model : String) (flags : Flags)
  /-- A model of another schema. -/
  | imported (model : String) (flags : Flags)
  /-- A scalar. -/
  | scalar (kind : ScalarKind) (flags : Flags)
  deriving DecidableEq

namespace PropertyType

/-- The flags of a type. -/
def flags : PropertyType → Flags
  | object flags | array _ flags | reference _ flags | imported _ flags | scalar _ flags => flags

/-- A type with other flags. -/
def withFlags (flags : Flags) : PropertyType → PropertyType
  | object _ => object flags
  | array member _ => array member flags
  | reference model _ => reference model flags
  | imported model _ => imported model flags
  | scalar kind _ => scalar kind flags

@[simp] theorem flags_withFlags (flags : Flags) (type : PropertyType) :
    (type.withFlags flags).flags = flags := by
  cases type <;> rfl

/-- A type that may be null. -/
def nullable (type : PropertyType) : PropertyType :=
  type.withFlags { type.flags with allowNull := true }

/-- The type of a primary key. -/
def primaryKey (type : PropertyType) : PropertyType :=
  type.withFlags { type.flags with isPrimaryKey := true }

/-- A type whose values are unique. -/
def withUnique (type : PropertyType) : PropertyType :=
  type.withFlags { type.flags with unique := true }

/-- The name of the shape of a type in a schema. -/
def typeName : PropertyType → String
  | object _ => "Object"
  | array _ _ => "Array"
  | reference _ _ => "ReferenceModel"
  | imported _ _ => "ImportModel"
  | scalar kind _ => kind.typeName

/-- The scalar kind of a scalar type. -/
def scalarKind? : PropertyType → Option ScalarKind
  | scalar kind _ => some kind
  | _ => none

/-- Whether a property of this type identifies a single record: it is a scalar
that is never null, and a primary key, unique or an identifier. -/
def isIdentifying : PropertyType → Bool
  | scalar kind flags =>
    (flags.isPrimaryKey || flags.unique || kind == .uniqueIdentifier) && !flags.allowNull
  | _ => false

/-- The model of the same schema that a type points at, looking through
lists. -/
def referencedModel? : PropertyType → Option String
  | reference model _ => some model
  | array member _ => member.referencedModel?
  | _ => none

/-- The type that a bare name denotes.  A question mark anywhere in the name
allows null; only scalars and objects have such names. -/
def ofName (name : String) : Except TypeFault PropertyType :=
  let flags : Flags := { allowNull := name.toList.contains '?' }
  let bare := String.ofList (Text.trim (name.toList.filter (· != '?')))
  match ScalarKind.ofTypeName? bare with
  | some kind => .ok (scalar kind flags)
  | none => if bare = "Object" then .ok (object flags) else .error (.unsupported bare)

end PropertyType

/-- How many records of its target a relation points at. -/
inductive Cardinality where
  | single
  | multiple
  deriving DecidableEq, Inhabited

end EntitySdl
