import EntitySdl.Proofs.JsonRoundTrip
import EntitySdl.Schema.File

/-! # Schemas that are saved are loaded again

The record of a schema holds no numbers, so that it is read back from its text
as long as the reader follows its nesting, and each part of it is decoded to what
it stands for.  The version of the layout is the one number in a file; it stands
before the models and ends at the comma behind it.
-/
namespace EntitySdl

open Datum

/-! ## Property types -/

namespace PropertyType

/-- How deep lists are nested in a type. -/
def arrayDepth : PropertyType → Nat
  | array member _ => member.arrayDepth + 1
  | object _ | reference _ _ | imported _ _ | scalar _ _ => 0

theorem fits_flagEntries (flags : Flags) (depth : Nat) :
    ∀ entry ∈ flagEntries flags, entry.2.Fits depth := by
  obtain ⟨allowNull, isPrimaryKey, unique⟩ := flags
  cases allowNull <;> cases isPrimaryKey <;> cases unique <;> simp [flagEntries, Fits.boolean]

theorem fits_toDatum (type : PropertyType) : type.toDatum.Fits (type.arrayDepth + 1) := by
  induction type with
  | object flags | scalar kind flags =>
    exact .record (List.forall_mem_cons.mpr ⟨.text _ _, fits_flagEntries flags _⟩)
  | reference model flags | imported model flags =>
    refine .record (List.forall_mem_cons.mpr ⟨.text _ _, ?_⟩)
    exact List.forall_mem_append.mpr
      ⟨fits_flagEntries flags _, List.forall_mem_singleton.mpr (.text _ _)⟩
  | array member flags ih =>
    refine .record (List.forall_mem_cons.mpr ⟨.text _ _, ?_⟩)
    exact List.forall_mem_append.mpr ⟨fits_flagEntries flags _, List.forall_mem_singleton.mpr ih⟩

/-- The fields that the entries of a type name and of flags make up. -/
def fieldsOf (typeName : String) (flags : Flags) : TypeForm.Fields where
  typeName := some typeName
  allowNull := if flags.allowNull then some true else none
  isPrimaryKey := if flags.isPrimaryKey then some true else none
  unique := if flags.unique then some true else none

theorem ofEntries?_flagEntries (typeName : String) (flags : Flags)
    (more : List (String × Datum)) :
    TypeForm.ofEntries? (("TypeName", .text typeName) :: flagEntries flags ++ more) {} =
      TypeForm.ofEntries? more (fieldsOf typeName flags) := by
  obtain ⟨allowNull, isPrimaryKey, unique⟩ := flags
  cases allowNull <;> cases isPrimaryKey <;> cases unique <;> rfl

/-- The flags are found again in the fields. -/
theorem flags_fieldsOf (typeName : String) (flags : Flags) :
    ({ allowNull := (fieldsOf typeName flags).allowNull.getD false
       isPrimaryKey := (fieldsOf typeName flags).isPrimaryKey.getD false
       unique := (fieldsOf typeName flags).unique.getD false } : Flags) = flags := by
  obtain ⟨allowNull, isPrimaryKey, unique⟩ := flags
  cases allowNull <;> cases isPrimaryKey <;> cases unique <;> rfl

/-- The written type of a record without model and members. -/
theorem ofDatum?_plain (typeName : String) (flags : Flags) :
    TypeForm.ofDatum? (.record (("TypeName", .text typeName) :: flagEntries flags)) =
      some (.plain typeName flags none) := by
  have hfields := ofEntries?_flagEntries typeName flags []
  rw [List.append_nil] at hfields
  rw [TypeForm.ofDatum?, hfields]
  exact congrArg (fun flags => some (TypeForm.plain typeName flags none))
    (flags_fieldsOf typeName flags)

/-- The written type of a record with a model. -/
theorem ofDatum?_model (typeName model : String) (flags : Flags) :
    TypeForm.ofDatum? (.record (("TypeName", .text typeName) :: flagEntries flags ++
      [("ModelName", .text model)])) = some (.plain typeName flags (some model)) := by
  rw [TypeForm.ofDatum?, ofEntries?_flagEntries]
  exact congrArg (fun flags => some (TypeForm.plain typeName flags (some model)))
    (flags_fieldsOf typeName flags)

/-- The written type of a record with the type of members. -/
theorem ofDatum?_member {member : Datum} {form : TypeForm} (typeName : String) (flags : Flags)
    (hform : TypeForm.ofDatum? member = some form) (hnull : member ≠ .null) :
    TypeForm.ofDatum? (.record (("TypeName", .text typeName) :: flagEntries flags ++
      [("MemberType", member)])) = some (.nesting typeName flags none form) := by
  rw [TypeForm.ofDatum?, ofEntries?_flagEntries, TypeForm.ofEntries?, hform]
  have hstore : (fieldsOf typeName flags).store "MemberType" member (some form) =
      some { fieldsOf typeName flags with member := some (some form) } := by
    cases member with
    | null => exact absurd rfl hnull
    | _ => rfl
  rw [hstore]
  exact congrArg (fun flags => some (TypeForm.nesting typeName flags none form))
    (flags_fieldsOf typeName flags)

theorem toDatum_ne_null (type : PropertyType) : type.toDatum ≠ .null := by
  cases type <;> exact Datum.noConfusion

/-- The record of a type is a written type that denotes it. -/
theorem exists_form (type : PropertyType) :
    ∃ form, TypeForm.ofDatum? type.toDatum = some form ∧ form.resolve = .ok type := by
  induction type with
  | object flags => exact ⟨_, ofDatum?_plain "Object" flags, rfl⟩
  | scalar kind flags =>
    refine ⟨_, ofDatum?_plain kind.typeName flags, ?_⟩
    cases kind <;> rfl
  | reference model flags => exact ⟨_, ofDatum?_model "ReferenceModel" model flags, rfl⟩
  | imported model flags => exact ⟨_, ofDatum?_model "ImportModel" model flags, rfl⟩
  | array member flags ih =>
    obtain ⟨form, hform, hresolve⟩ := ih
    refine ⟨_, ofDatum?_member "Array" flags hform member.toDatum_ne_null, ?_⟩
    change form.resolve.map _ = _
    rw [hresolve]
    rfl

/-- A property type is decoded from its record. -/
theorem decode_toDatum (dialect : Dialect) (type : PropertyType) :
    decode dialect type.toDatum = .ok type := by
  obtain ⟨form, hform, hresolve⟩ := exists_form type
  simp only [decode, hform, hresolve, Except.mapError]

end PropertyType

/-! ## Records -/

namespace Datum

section Records

variable {σ α : Type} {dialect : Dialect}

theorem RecordField.store_of {key : String} {required : Bool} {decode : Decoder α}
    {set : α → σ → σ} {datum : Datum} {value : α} (h : decode dialect datum = .ok value)
    (built : σ) :
    (RecordField.of key required decode set).store dialect datum built = .ok (set value built) := by
  simp only [RecordField.of, h, Except.map]

/-- An entry is stored by the field of its key, if the key is new. -/
theorem readEntries_cons {fields : List (RecordField σ)} {field : RecordField σ} {key : String}
    {value : Datum} {entries : List (String × Datum)} {built built' : σ} {met : List String}
    (hfield : fields.find? (·.key == key) = some field) (hmet : met.contains key = false)
    (hstore : field.store dialect value built = .ok built') :
    readEntries fields dialect ((key, value) :: entries) built met =
      readEntries fields dialect entries built' (key :: met) := by
  rw [readEntries, hfield]
  simp only [hmet, hstore, Bool.false_eq_true, if_false]
  rfl

/-- A list that is left out when it is empty is stored all the same, if its field is empty
before. -/
theorem readEntries_listEntry {fields : List (RecordField σ)} {field : RecordField σ}
    {key : String} {items : List Datum} {entries : List (String × Datum)} {built built' : σ}
    {met : List String} (hfield : fields.find? (·.key == key) = some field)
    (hmet : met.contains key = false)
    (hstore : field.store dialect (.list items) built = .ok built')
    (hempty : items = [] → built' = built) :
    readEntries fields dialect (listEntry key items ++ entries) built met =
      readEntries fields dialect entries built' ((listEntry key items).map Prod.fst ++ met) := by
  cases items with
  | nil =>
    rw [hempty rfl]
    rfl
  | cons item items => exact readEntries_cons hfield hmet hstore

/-- A record is complete when all required keys have been met. -/
theorem readRecord_eq_ok {name : String} {fields : List (RecordField σ)} {blank built : σ}
    {entries : List (String × Datum)} {met : List String}
    (h : readEntries fields dialect entries blank [] = .ok (built, met))
    (hmet : ∀ field ∈ fields, field.required → field.key ∈ met) :
    readRecord name fields blank dialect (.record entries) = .ok built := by
  have hnone : (fields.find? fun field => field.required && !met.contains field.key) = none := by
    refine List.find?_eq_none.mpr fun field hfield => ?_
    by_cases hrequired : field.required
    · simp [hmet field hfield hrequired]
    · simp [hrequired]
  simp only [readRecord, h, bind, Except.bind, hnone]
  rfl

/-- A list is decoded when its elements are. -/
theorem readList_map {decode : Decoder α} {toDatum : α → Datum} {values : List α}
    (h : ∀ value ∈ values, decode dialect (toDatum value) = .ok value) :
    readList decode dialect (.list (values.map toDatum)) = .ok values := by
  refine mapM_eq_ok_iff.mpr ?_
  rw [List.forall₂_map_left_iff]
  exact List.forall₂_same.mpr h

end Records

end Datum

/-! ## Members and models -/

theorem Property.decode_toDatum (dialect : Dialect) (property : Property) :
    Property.decode dialect property.toDatum = .ok property := by
  have htype := PropertyType.decode_toDatum dialect property.type
  refine readRecord_eq_ok ((readEntries_cons rfl rfl (RecordField.store_of rfl _)).trans
    (readEntries_cons rfl rfl (RecordField.store_of htype _))) ?_
  decide

theorem Relation.decode_toDatum (dialect : Dialect) (relation : Relation) :
    Relation.decode dialect relation.toDatum = .ok relation := by
  have hcardinality : Cardinality.decode dialect (.text relation.cardinality.name) =
      .ok relation.cardinality := by
    cases relation.cardinality <;> rfl
  refine readRecord_eq_ok ((readEntries_cons rfl rfl (RecordField.store_of rfl _)).trans
    ((readEntries_cons rfl rfl (RecordField.store_of rfl _)).trans
      (readEntries_cons rfl rfl (RecordField.store_of hcardinality _)))) ?_
  decide

theorem Operation.decode_toDatum (dialect : Dialect) (operation : Operation) :
    Operation.decode dialect operation.toDatum = .ok operation := by
  have harguments : readList Property.decode dialect
      (.list (operation.arguments.map Property.toDatum)) = .ok operation.arguments :=
    readList_map fun argument _ => argument.decode_toDatum dialect
  have hreturns := PropertyType.decode_toDatum dialect operation.returns
  refine readRecord_eq_ok ((readEntries_cons rfl rfl (RecordField.store_of rfl _)).trans
    ((readEntries_cons rfl rfl (RecordField.store_of harguments _)).trans
      (readEntries_cons rfl rfl (RecordField.store_of hreturns _)))) ?_
  decide

theorem Model.decode_toDatum (dialect : Dialect) (model : Model) :
    Model.decode dialect model.toDatum = .ok model := by
  have hproperties : readList Property.decode dialect
      (.list (model.properties.map Property.toDatum)) = .ok model.properties :=
    readList_map fun property _ => property.decode_toDatum dialect
  have hrelations : readList Relation.decode dialect
      (.list (model.relations.map Relation.toDatum)) = .ok model.relations :=
    readList_map fun relation _ => relation.decode_toDatum dialect
  have hoperations : readList Operation.decode dialect
      (.list (model.operations.map Operation.toDatum)) = .ok model.operations :=
    readList_map fun operation _ => operation.decode_toDatum dialect
  have hentries : model.toDatum = .record (("name", .text model.name) ::
      ("properties", .list (model.properties.map Property.toDatum)) ::
        (listEntry "relations" (model.relations.map Relation.toDatum) ++
          (listEntry "operations" (model.operations.map Operation.toDatum) ++ []))) := by
    rw [Model.toDatum, List.append_nil, List.append_assoc]
    rfl
  have hmet : ((listEntry "relations" (model.relations.map Relation.toDatum)).map Prod.fst ++
      ["properties", "name"]).contains "operations" = false := by
    cases model.relations <;> rfl
  rw [hentries]
  -- relations and operations are left out when there are none, so that their fields keep the blank
  refine readRecord_eq_ok ((readEntries_cons rfl rfl (RecordField.store_of rfl _)).trans
    ((readEntries_cons rfl rfl (RecordField.store_of hproperties _)).trans
      ((readEntries_listEntry rfl rfl (RecordField.store_of hrelations _) ?_).trans
        (readEntries_listEntry rfl hmet (RecordField.store_of hoperations _) ?_)))) ?_
  · intro h
    rw [List.map_eq_nil_iff.mp h]
  · intro h
    cases model
    cases List.map_eq_nil_iff.mp h
    rfl
  · simp [RecordField.of]

/-- The entries of a schema are decoded to it. -/
theorem Schema.readModels_entries (dialect : Dialect) (schema : Schema) :
    SchemaFile.readModels dialect schema.entries = .ok schema := by
  have hmodels : readList Model.decode dialect (.list (schema.models.map Model.toDatum)) =
      .ok schema.models :=
    readList_map fun model _ => model.decode_toDatum dialect
  have hentries : readEntries Schema.fields dialect schema.entries {} [] =
      .ok (schema, ["models"]) :=
    readEntries_cons rfl rfl (RecordField.store_of hmodels _)
  simp only [SchemaFile.readModels, hentries]

/-! ## Nesting -/

/-- How deep lists are nested in the types of a schema is bounded. -/
structure Schema.NestsUpTo (schema : Schema) (depth : Nat) : Prop where
  properties : ∀ model ∈ schema.models, ∀ property ∈ model.properties,
    property.type.arrayDepth ≤ depth
  arguments : ∀ model ∈ schema.models, ∀ operation ∈ model.operations,
    ∀ argument ∈ operation.arguments, argument.type.arrayDepth ≤ depth
  results : ∀ model ∈ schema.models, ∀ operation ∈ model.operations,
    operation.returns.arrayDepth ≤ depth

theorem Property.fits_toDatum {property : Property} {depth : Nat}
    (h : property.type.arrayDepth ≤ depth) : property.toDatum.Fits (depth + 2) :=
  .record (List.forall_mem_cons.mpr ⟨.text _ _, List.forall_mem_singleton.mpr
    (property.type.fits_toDatum.mono (by omega))⟩)

theorem Relation.fits_toDatum (relation : Relation) (depth : Nat) :
    relation.toDatum.Fits (depth + 1) :=
  .record (List.forall_mem_cons.mpr ⟨.text _ _, List.forall_mem_cons.mpr
    ⟨.text _ _, List.forall_mem_singleton.mpr (.text _ _)⟩⟩)

/-- A list fits when its elements do. -/
theorem Datum.fits_map {α : Type} {toDatum : α → Datum} {values : List α} {depth : Nat}
    (h : ∀ value ∈ values, (toDatum value).Fits depth) :
    (Datum.list (values.map toDatum)).Fits (depth + 1) :=
  .list (List.forall_mem_map.mpr h)

theorem Operation.fits_toDatum {operation : Operation} {depth : Nat}
    (harguments : ∀ argument ∈ operation.arguments, argument.type.arrayDepth ≤ depth)
    (hreturns : operation.returns.arrayDepth ≤ depth) : operation.toDatum.Fits (depth + 4) := by
  refine .record (List.forall_mem_cons.mpr ⟨.text _ _, List.forall_mem_cons.mpr
    ⟨?_, List.forall_mem_singleton.mpr (operation.returns.fits_toDatum.mono (by omega))⟩⟩)
  exact Datum.fits_map fun argument hargument =>
    Property.fits_toDatum (harguments argument hargument)

theorem Datum.fits_listEntry {key : String} {items : List Datum} {depth : Nat}
    (h : (Datum.list items).Fits depth) : ∀ entry ∈ listEntry key items, entry.2.Fits depth := by
  intro entry hentry
  unfold listEntry at hentry
  split at hentry
  · cases hentry
  · cases List.mem_singleton.mp hentry
    exact h

theorem Schema.fits_model {schema : Schema} {depth : Nat} (h : schema.NestsUpTo depth)
    {model : Model} (hmodel : model ∈ schema.models) : model.toDatum.Fits (depth + 6) := by
  refine .record ?_
  rw [List.forall_mem_append, List.forall_mem_append]
  refine ⟨⟨List.forall_mem_cons.mpr ⟨.text _ _, List.forall_mem_singleton.mpr ?_⟩, ?_⟩, ?_⟩
  · have hlist := Datum.fits_map fun property hproperty =>
      Property.fits_toDatum (h.properties model hmodel property hproperty)
    exact hlist.mono (by omega)
  · refine Datum.fits_listEntry (Datum.fits_map fun relation _ => ?_)
    exact relation.fits_toDatum (depth + 3)
  · refine Datum.fits_listEntry (Datum.fits_map fun operation hoperation => ?_)
    exact Operation.fits_toDatum (h.arguments model hmodel operation hoperation)
      (h.results model hmodel operation hoperation)

/-! ## Files -/

namespace SchemaFile

open Json

/-- A number of one digit ends at what stands behind an entry. -/
theorem readVersionText_one {rest : List Char} (h : EndsMember rest) :
    readVersionText ('1' :: rest) = .ok (1, rest) := by
  obtain ⟨c, more, rfl, rfl | rfl⟩ := h <;> rfl

theorem readEntry_version {rest : List Char} (h : EndsMember rest) :
    readEntry {} (printEntry 1 (versionKey, .integer currentVersion) ++ rest) =
      .ok ({ version := some 1 }, rest) := by
  have hkey := readKey_printString versionKey ([':', ' '] ++ ('1' :: rest))
  have hcolon : readColon ([':', ' '] ++ ('1' :: rest)) = .ok ((), '1' :: rest) := rfl
  have hversion := readVersionText_one h
  change readEntry {} (printString versionKey ++ [':', ' '] ++ ['1'] ++ rest) = _
  rw [List.append_assoc, List.append_assoc, List.singleton_append, readEntry, hkey]
  simp only [bind, Except.bind, if_true, Option.isSome_none, Bool.false_eq_true, if_false, hcolon,
    hversion]
  rfl

theorem readEntry_models {datum : Datum} (h : datum.Fits (maxDepth - 1)) (draft : Draft)
    (rest : List Char) : readEntry draft (printEntry 1 ("models", datum) ++ rest) =
      .ok ({ draft with entries := draft.entries ++ [("models", datum)] }, rest) := by
  have hkey := readKey_printString "models" ([':', ' '] ++ printAt 1 datum ++ rest)
  have hne : "models" ≠ versionKey := by decide
  rw [printEntry, List.append_assoc, List.append_assoc, ← List.append_assoc [':', ' '], readEntry,
    hkey]
  simp only [bind, Except.bind, hne, if_false, readColon_printAt h, readValue_printAt h]
  rfl

/-- The file of a schema is read as its version and the schema. -/
theorem readJson_print {schema : Schema} (h : schema.NestsUpTo 50) :
    readJson (print .json schema) = .ok (some currentVersion, schema) := by
  have hmodels : (Datum.list (schema.models.map Model.toDatum)).Fits (maxDepth - 1) := by
    have hlist := Datum.fits_map fun model hmodel => Schema.fits_model h hmodel
    exact hlist.mono (by decide)
  have hsteps : Steps '\x7d' readEntry {} (printEntries 0 (entries schema))
      { version := some 1, entries := schema.entries } := by
    rw [printEntries_eq]
    exact .cons (startsMember_printEntry 1 _) (fun rest hrest => readEntry_version hrest)
      (.cons (startsMember_printEntry 1 _) (fun rest _ => readEntry_models hmodels _ rest)
        (.nil _))
  obtain ⟨cs, hcs, hread⟩ := readMembers_bracket hsteps (by decide) (by decide) '\x7b' 0 []
  have htext : (print .json schema).toList = '\x7b' :: cs := by
    rw [← hcs, List.append_nil]
    exact String.toList_ofList
  unfold readJson
  rw [htext, skipSpace_cons (by decide)]
  simp only [hread, bind, Except.bind, Schema.readModels_entries]
  rfl

/-- **Saving and loading.**  A schema whose types nest lists at most 50 deep is loaded from the
JSON text that it has been saved to. -/
theorem parse_print_json {schema : Schema} (h : schema.NestsUpTo 50) :
    parse .json (print .json schema) = .ok schema := by
  unfold parse
  rw [readJson_print h]
  rfl

/-- A schema with names that need escapes, flags and lists of lists. -/
def archive : Schema where
  models :=
    [{ name := "Straße \"7\"\n"
       properties := [⟨"tags\x01", .array (.array (.reference "C:\\" {}) { allowNull := true }) {}⟩,
         ⟨"😀", .scalar .binary { isPrimaryKey := true, unique := true }⟩]
       operations := [{ name := "", arguments := [⟨"\t", .object { allowNull := true }⟩]
                        returns := .imported "elsewhere" {} }] },
     { name := "", relations := [{ name := "a", model := "b", cardinality := .multiple }] }]

theorem parse_print_json_archive : archive.NestsUpTo 50 ∧
    parse .json (print .json archive) = .ok archive := by
  have hnests : archive.NestsUpTo 50 := ⟨by decide, by decide, by decide⟩
  exact ⟨hnests, parse_print_json hnests⟩

end SchemaFile
end EntitySdl
