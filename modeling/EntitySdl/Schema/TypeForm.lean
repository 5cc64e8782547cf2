import EntitySdl.Schema.PropertyType
import EntitySdl.Datum.Decoding

/-! # Written property types

A property type is written as a bare name or as a record.  The record form may
hold another written type, which is read only for lists; it must be well formed
all the same.
-/
namespace EntitySdl

/-- A property type as a schema writes it. -/
inductive TypeForm where
  /-- A bare name. -/
  | name (text : String)
  /-- A record without the type of members. -/
  | plain (typeName : String) (flags : Flags) (model : Option String)
  /-- A record with the type of members. -/
  | nesting (typeName : String) (flags : Flags) (model : Option String) (member : TypeForm)

namespace TypeForm

/-- The fields of the record form that have been met; one whose value is null
counts as met. -/
structure Fields where
  typeName : Option String := none
  allowNull : Option Bool := none
  isPrimaryKey : Option Bool := none
  unique : Option Bool := none
  member : Option (Option TypeForm) := none
  model : Option (Option String) := none

/-- The keys of the record form, in the order of the list form. -/
def keys : List String :=
  ["TypeName", "AllowNull", "IsPrimaryKey", "Unique", "MemberType", "ModelName"]

namespace Fields

/-- The fields after a further entry, of which the value is also given as a
written type, if it is one.  No field may be met twice. -/
def store (fields : Fields) (key : String) (value : Datum) (form : Option TypeForm) :
    Option Fields :=
  match key, value with
  | "TypeName", .text s =>
    if fields.typeName.isSome then none else some { fields with typeName := some s }
  | "AllowNull", .boolean b =>
    if fields.allowNull.isSome then none else some { fields with allowNull := some b }
  | "IsPrimaryKey", .boolean b =>
    if fields.isPrimaryKey.isSome then none else some { fields with isPrimaryKey := some b }
  | "Unique", .boolean b =>
    if fields.unique.isSome then none else some { fields with unique := some b }
  | "MemberType", .null =>
    if fields.member.isSome then none else some { fields with member := some none }
  | "MemberType", _ =>
    if fields.member.isSome then none
    else form.map fun form => { fields with member := some (some form) }
  | "ModelName", .null =>
    if fields.model.isSome then none else some { fields with model := some none }
  | "ModelName", .text s =>
    if fields.model.isSome then none else some { fields with model := some (some s) }
  | key, _ => if keys.contains key then none else some fields

/-- The record form that the fields make up; the type name is required. -/
def form? (fields : Fields) : Option TypeForm :=
  fields.typeName.map fun typeName =>
    let flags : Flags :=
      { allowNull := fields.allowNull.getD false
        isPrimaryKey := fields.isPrimaryKey.getD false
        unique := fields.unique.getD false }
    match fields.member with
    | some (some member) => .nesting typeName flags (fields.model.getD none) member
    | _ => .plain typeName flags (fields.model.getD none)

end Fields

mutual

/-- The written type that a datum is, if it is one. -/
def ofDatum? : Datum → Option TypeForm
  | .text s => some (.name s)
  | .record entries => (ofEntries? entries {}).bind Fields.form?
  | .list values => (ofValues? values keys {}).bind Fields.form?
  | _ => none
termination_by structural datum => datum

/-- The fields after the entries of a record. -/
def ofEntries? : List (String × Datum) → Fields → Option Fields
  | [], fields => some fields
  | (key, value) :: entries, fields =>
    (fields.store key value (ofDatum? value)).bind (ofEntries? entries)
termination_by structural entries => entries

/-- The fields after values given in the order of some keys, of which there must
be enough. -/
def ofValues? : List Datum → List String → Fields → Option Fields
  | [], _, fields => some fields
  | _ :: _, [], _ => none
  | value :: values, key :: keys, fields =>
    (fields.store key value (ofDatum? value)).bind (ofValues? values keys)
termination_by structural values => values

end

/-- The type that is written. -/
def resolve : TypeForm → Except TypeFault PropertyType
  | name text => PropertyType.ofName text
  | plain typeName flags model =>
    match typeName, model with
    | "Array", _ => .error .memberMissing
    | typeName, model => ofShape typeName flags model
  | nesting typeName flags model member =>
    match typeName, model with
    | "Array", _ => member.resolve.map (.array · flags)
    | typeName, model => ofShape typeName flags model
where
  /-- The type of a shape that has no members. -/
  ofShape (typeName : String) (flags : Flags) (model : Option String) :
      Except TypeFault PropertyType :=
    match typeName, model with
    | "Object", _ => .ok (.object flags)
    | "ReferenceModel", some model => .ok (.reference model flags)
    | "ImportModel", some model => .ok (.imported model flags)
    | "ReferenceModel", none | "ImportModel", none => .error (.modelMissing typeName)
    | _, _ => match ScalarKind.ofTypeName? typeName with
      | some kind => .ok (.scalar kind flags)
      | none => .error (.unsupported typeName)

end TypeForm

namespace PropertyType

open Datum

/-- A property type, in either form. -/
def decode : Decoder PropertyType := fun _ datum =>
  match TypeForm.ofDatum? datum with
  | none => .error .noTypeForm
  | some form => form.resolve.mapError .typeFault

/-- The entries for the flags that are set. -/
def flagEntries (flags : Flags) : List (String × Datum) :=
  [("AllowNull", flags.allowNull), ("IsPrimaryKey", flags.isPrimaryKey),
    ("Unique", flags.unique)].filterMap fun (key, set) =>
      if set then some (key, .boolean true) else none

/-- A property type in the record form. -/
def toDatum : PropertyType → Datum
  | object flags => .record (("TypeName", .text "Object") :: flagEntries flags)
  | array member flags =>
    .record (("TypeName", .text "Array") :: flagEntries flags ++ [("MemberType", member.toDatum)])
  | reference model flags =>
    .record (("TypeName", .text "ReferenceModel") :: flagEntries flags ++
      [("ModelName", .text model)])
  | imported model flags =>
    .record (("TypeName", .text "ImportModel") :: flagEntries flags ++
      [("ModelName", .text model)])
  | scalar kind flags => .record (("TypeName", .text kind.typeName) :: flagEntries flags)

end PropertyType
end EntitySdl
