import EntitySdl.Proofs.SchemaRoundTrip
import EntitySdl.Proofs.TomlSections

/-! # Schemas saved as TOML are loaded again

Every part of a schema is a record whose scalars come first, and behind them the records
and lists of records with sections of their own.  An empty list counts as a scalar.  So
the file of a schema lies in sections, as deep as its types are nested and a little
deeper.
-/
namespace EntitySdl

open Datum Toml

variable {depth bound : Nat} {direct headed : List (String × Datum)} {datum : Datum}

/-! ## Records in sections -/

/-- A datum that stands on the line of its key. -/
def IsLine (datum : Datum) : Prop := hasHeader datum = false ∧ IsReadable datum

theorem isLine_text (text : String) : IsLine (.text text) := ⟨rfl, isReadable_text text⟩

theorem isLine_boolean (value : Bool) : IsLine (.boolean value) := ⟨rfl, isReadable_boolean value⟩

theorem isLine_one : IsLine (.integer 1) := ⟨rfl, isReadable_one⟩

theorem isLine_empty : IsLine (.list []) := ⟨rfl, isReadable_empty⟩

/-- A record that lies in sections up to a depth. -/
def IsSection (depth : Nat) (datum : Datum) : Prop :=
  ∃ entries, datum = .record entries ∧ Sectioned depth entries

theorem IsSection.toHeaded (h : IsSection depth datum) : Headed (Sectioned depth) datum := by
  obtain ⟨entries, rfl, hentries⟩ := h
  exact hentries

theorem headed_map {α : Type} {toDatum : α → Datum} {values : List α} (hne : values ≠ [])
    (h : ∀ value ∈ values, IsSection depth (toDatum value)) :
    Headed (Sectioned depth) (.list (values.map toDatum)) :=
  ⟨by simpa using hne, List.forall_mem_map.mpr h⟩

/-- A list of keys for records, in their order. -/
def AreKeys (keys : List String) : Prop := keys.Nodup ∧ ∀ key ∈ keys, IsBareKey key

/-- The keys of a schema are lists that can be checked. -/
instance (keys : List String) : Decidable (AreKeys keys) := inferInstanceAs (Decidable (_ ∧ _))

/-- A record is made of lines and of what has headers, under some of the keys that there
are. -/
theorem isSection_record {keys : List String} (hkeys : AreKeys keys)
    (hsub : ((direct ++ headed).map Prod.fst).Sublist keys) (hne : direct ≠ [])
    (hdirect : ∀ entry ∈ direct, IsLine entry.2)
    (hheaded : ∀ entry ∈ headed, Headed (Sectioned depth) entry.2) :
    IsSection (depth + 1) (.record (direct ++ headed)) := by
  refine ⟨_, rfl, direct, headed, rfl, hne, hdirect, fun entry hentry => ?_, ?_, ?_⟩
  · exact ⟨hasHeader_of_headed (hheaded entry hentry), hheaded entry hentry⟩
  · exact hkeys.1.sublist hsub
  · exact fun key hkey => hkeys.2 key (hsub.subset hkey)

/-! ## Property types -/

namespace PropertyType

/-- The keys of the record of a type. -/
def keys : List String :=
  ["TypeName", "AllowNull", "IsPrimaryKey", "Unique", "ModelName", "MemberType"]

theorem areKeys : AreKeys keys := by decide

theorem sublist_flagEntries (flags : Flags) :
    ((flagEntries flags).map Prod.fst).Sublist ["AllowNull", "IsPrimaryKey", "Unique"] := by
  obtain ⟨allowNull, isPrimaryKey, unique⟩ := flags
  cases allowNull <;> cases isPrimaryKey <;> cases unique <;> decide

theorem isLine_flagEntries (flags : Flags) : ∀ entry ∈ flagEntries flags, IsLine entry.2 := by
  obtain ⟨allowNull, isPrimaryKey, unique⟩ := flags
  cases allowNull <;> cases isPrimaryKey <;> cases unique <;>
    simp [flagEntries, isLine_boolean]

/-- The record of a type name and flags, with lines and sections behind them. -/
theorem isSection_type (depth : Nat) (typeName : String) (flags : Flags)
    (last headed : List (String × Datum))
    (hsub : ((last ++ headed).map Prod.fst).Sublist ["ModelName", "MemberType"])
    (hlast : ∀ entry ∈ last, IsLine entry.2)
    (hheaded : ∀ entry ∈ headed, Headed (Sectioned depth) entry.2) :
    IsSection (depth + 1)
      (.record (("TypeName", .text typeName) :: flagEntries flags ++ last ++ headed)) := by
  refine isSection_record areKeys ?_ (by simp) ?_ hheaded
  · rw [List.append_assoc, List.map_append, List.map_cons]
    exact ((sublist_flagEntries flags).cons_cons "TypeName").append hsub
  · exact List.forall_mem_append.mpr
      ⟨List.forall_mem_cons.mpr ⟨isLine_text typeName, isLine_flagEntries flags⟩, hlast⟩

theorem isSection_plain (depth : Nat) (typeName : String) (flags : Flags) :
    IsSection (depth + 1) (.record (("TypeName", .text typeName) :: flagEntries flags)) := by
  have hsection := isSection_type depth typeName flags [] [] (by simp) (by simp) (by simp)
  rwa [List.append_nil, List.append_nil] at hsection

theorem isSection_model (depth : Nat) (typeName model : String) (flags : Flags) :
    IsSection (depth + 1) (.record (("TypeName", .text typeName) :: flagEntries flags ++
      [("ModelName", .text model)])) := by
  have hsection := isSection_type depth typeName flags [("ModelName", .text model)] [] (by simp)
    (by simpa using isLine_text model) (by simp)
  rwa [List.append_nil] at hsection

theorem isSection_toDatum (type : PropertyType) (h : type.arrayDepth + 1 ≤ depth) :
    IsSection depth type.toDatum := by
  obtain ⟨depth, rfl⟩ := Nat.exists_eq_add_one_of_ne_zero (show depth ≠ 0 by omega)
  induction type generalizing depth with
  | object flags => exact isSection_plain depth _ flags
  | scalar kind flags => exact isSection_plain depth _ flags
  | reference model flags => exact isSection_model depth _ model flags
  | imported model flags => exact isSection_model depth _ model flags
  | array member flags ih =>
    rw [arrayDepth] at h
    obtain ⟨depth, rfl⟩ := Nat.exists_eq_add_one_of_ne_zero (show depth ≠ 0 by omega)
    have hmember := ih depth (by omega)
    have hsection := isSection_type (depth + 1) "Array" flags [] [("MemberType", member.toDatum)]
      (by simp) (by simp) (by simpa using hmember.toHeaded)
    rwa [List.append_nil] at hsection

end PropertyType

/-! ## Members and models -/

theorem Property.isSection_toDatum {property : Property}
    (h : property.type.arrayDepth + 2 ≤ depth) : IsSection depth property.toDatum := by
  obtain ⟨depth, rfl⟩ := Nat.exists_eq_add_one_of_ne_zero (show depth ≠ 0 by omega)
  have htype := property.type.isSection_toDatum (show property.type.arrayDepth + 1 ≤ depth by omega)
  have hkeys : AreKeys ["name", "type"] := by decide
  exact isSection_record hkeys (List.Sublist.refl _) (List.cons_ne_nil _ [])
    (List.forall_mem_singleton.mpr (isLine_text _)) (List.forall_mem_singleton.mpr htype.toHeaded)

theorem Relation.isSection_toDatum (relation : Relation) (depth : Nat) :
    IsSection (depth + 1) relation.toDatum := by
  have hkeys : AreKeys ["name", "model", "cardinality"] := by decide
  have hlines : ∀ entry ∈ [("name", Datum.text relation.name), ("model", .text relation.model),
      ("cardinality", .text relation.cardinality.name)], IsLine entry.2 := by
    simp [isLine_text]
  exact isSection_record hkeys (List.Sublist.refl _) (List.cons_ne_nil _ _) hlines
    (List.forall_mem_nil _)

/-- A list is a line when it is empty, and has headers otherwise. -/
theorem isLine_or_headed {α : Type} {toDatum : α → Datum} (values : List α)
    (h : ∀ value ∈ values, IsSection depth (toDatum value)) :
    IsLine (.list (values.map toDatum)) ∨ Headed (Sectioned depth) (.list (values.map toDatum)) := by
  cases values with
  | nil => exact .inl isLine_empty
  | cons value values => exact .inr (headed_map (List.cons_ne_nil _ _) h)

/-- A record of a line, a list and what has headers. -/
theorem isSection_list {keys : List String} {name list : String × Datum} (hkeys : AreKeys keys)
    (hsub : ((name :: list :: headed).map Prod.fst).Sublist keys) (hname : IsLine name.2)
    (hlist : IsLine list.2 ∨ Headed (Sectioned depth) list.2)
    (hheaded : ∀ entry ∈ headed, Headed (Sectioned depth) entry.2) :
    IsSection (depth + 1) (.record (name :: list :: headed)) := by
  rcases hlist with hlist | hlist
  · have hlines : ∀ entry ∈ [name, list], IsLine entry.2 :=
      List.forall_mem_cons.mpr ⟨hname, List.forall_mem_singleton.mpr hlist⟩
    exact isSection_record hkeys hsub (List.cons_ne_nil _ _) hlines hheaded
  · exact isSection_record hkeys hsub (List.cons_ne_nil _ []) (List.forall_mem_singleton.mpr hname)
      (List.forall_mem_cons.mpr ⟨hlist, hheaded⟩)

theorem Operation.isSection_toDatum {operation : Operation}
    (harguments : ∀ argument ∈ operation.arguments, argument.type.arrayDepth + 3 ≤ depth)
    (hreturns : operation.returns.arrayDepth + 3 ≤ depth) : IsSection depth operation.toDatum := by
  obtain ⟨depth, rfl⟩ := Nat.exists_eq_add_one_of_ne_zero (show depth ≠ 0 by omega)
  have hkeys : AreKeys ["name", "arguments", "returns"] := by decide
  have hlist : IsLine (.list (operation.arguments.map Property.toDatum)) ∨
      Headed (Sectioned depth) (.list (operation.arguments.map Property.toDatum)) :=
    isLine_or_headed operation.arguments fun argument hargument =>
      Property.isSection_toDatum (Nat.le_of_succ_le_succ (harguments argument hargument))
  have hresult := operation.returns.isSection_toDatum
    (show operation.returns.arrayDepth + 1 ≤ depth by omega)
  exact isSection_list hkeys (List.Sublist.refl _) (isLine_text operation.name) hlist
    (List.forall_mem_singleton.mpr hresult.toHeaded)

theorem headed_listEntry {α : Type} {toDatum : α → Datum} {values : List α} (key : String)
    (h : ∀ value ∈ values, IsSection depth (toDatum value)) :
    ∀ entry ∈ listEntry key (values.map toDatum), Headed (Sectioned depth) entry.2 := by
  cases values with
  | nil => exact List.forall_mem_nil _
  | cons value values =>
    exact List.forall_mem_singleton.mpr (headed_map (List.cons_ne_nil _ _) h)

theorem sublist_listEntry (key : String) (items : List Datum) :
    ((listEntry key items).map Prod.fst).Sublist [key] := by
  cases items with
  | nil => exact List.nil_sublist _
  | cons => exact List.Sublist.refl _

theorem Schema.isSection_model {schema : Schema} (h : schema.NestsUpTo bound) {model : Model}
    (hmodel : model ∈ schema.models) : IsSection (bound + 4) model.toDatum := by
  have hkeys : AreKeys ["name", "properties", "relations", "operations"] := by decide
  have hproperties : IsLine (.list (model.properties.map Property.toDatum)) ∨
      Headed (Sectioned (bound + 3)) (.list (model.properties.map Property.toDatum)) :=
    isLine_or_headed model.properties fun property hproperty =>
      Property.isSection_toDatum (by
        have := h.properties model hmodel property hproperty
        omega)
  have hoperation : ∀ operation ∈ model.operations, IsSection (bound + 3) operation.toDatum := by
    intro operation hoperation
    have harguments := h.arguments model hmodel operation hoperation
    have hreturns := h.results model hmodel operation hoperation
    exact Operation.isSection_toDatum (fun argument hargument =>
      Nat.add_le_add_right (harguments argument hargument) 3) (Nat.add_le_add_right hreturns 3)
  have hrelations := headed_listEntry "relations" fun relation (_ : relation ∈ model.relations) =>
    relation.isSection_toDatum (bound + 2)
  have hentries : model.toDatum = .record (("name", .text model.name) ::
      ("properties", .list (model.properties.map Property.toDatum)) ::
        (listEntry "relations" (model.relations.map Relation.toDatum) ++
          listEntry "operations" (model.operations.map Operation.toDatum))) := by
    rw [Model.toDatum, List.append_assoc]
    rfl
  rw [hentries]
  refine isSection_list hkeys ?_ (isLine_text model.name) hproperties
    (List.forall_mem_append.mpr ⟨hrelations, headed_listEntry "operations" hoperation⟩)
  rw [List.map_cons, List.map_cons, List.map_append]
  exact (((sublist_listEntry _ _).append (sublist_listEntry _ _)).cons_cons _).cons_cons _

/-- The file of a schema lies in sections. -/
theorem Schema.sectioned_entries {schema : Schema} (h : schema.NestsUpTo bound) :
    Sectioned (bound + 5) (SchemaFile.entries schema) := by
  have hkeys : AreKeys [SchemaFile.versionKey, "models"] := by decide
  have hmodels : IsLine (.list (schema.models.map Model.toDatum)) ∨
      Headed (Sectioned (bound + 4)) (.list (schema.models.map Model.toDatum)) :=
    isLine_or_headed schema.models fun model hmodel => Schema.isSection_model h hmodel
  have hfile : IsSection (bound + 5) (.record (SchemaFile.entries schema)) :=
    isSection_list hkeys (List.Sublist.refl _) isLine_one hmodels (List.forall_mem_nil _)
  exact hfile.toHeaded

/-! ## Files -/

namespace SchemaFile

/-- The file of a schema is read as its version and the schema. -/
theorem readToml_print {schema : Schema} (h : schema.NestsUpTo 50) :
    readToml (print .toml schema) = .ok (some currentVersion, schema) := by
  have hparse : Toml.parse (print .toml schema) = .ok (entries schema) :=
    Toml.parse_print (Schema.sectioned_entries h) (by decide)
  have hmodels : readModels .toml (entries schema) = .ok schema :=
    Schema.readModels_entries .toml schema
  rw [readToml, hparse]
  simp only [bind, Except.bind, hmodels]
  rfl

/-- **Saving and loading.**  A schema whose types nest lists at most 50 deep is loaded from the
TOML text that it has been saved to. -/
theorem parse_print_toml {schema : Schema} (h : schema.NestsUpTo 50) :
    parse .toml (print .toml schema) = .ok schema := by
  unfold parse
  rw [readToml_print h]
  rfl

theorem parse_print_toml_archive : archive.NestsUpTo 50 ∧
    parse .toml (print .toml archive) = .ok archive := by
  have hnests : archive.NestsUpTo 50 := ⟨by decide, by decide, by decide⟩
  exact ⟨hnests, parse_print_toml hnests⟩

end SchemaFile
end EntitySdl
