import EntitySdl.Schema.PropertyType
import EntitySdl.Datum.Decoding
import EntitySdl.Toml.Reader

/-! # Configuration

What a run of the generator is told about its output.  As data, a configuration
is a record whose missing entries keep their defaults.
-/
namespace EntitySdl
namespace Generate

open Datum

/-- How the output is split into documents. -/
inductive OutputMode where
  /-- One document for each model. -/
  | perModel
  /-- One document for all models. -/
  | merged
  deriving DecidableEq

/-- The shape of the query for a single record. -/
inductive LookupStyle where
  /-- One query with an argument that is an input of all identifying properties. -/
  | uniqueFilter
  /-- One query for each identifying property. -/
  | perIdentifier
  deriving DecidableEq

/-- How a resolver file exports its resolvers. -/
inductive ResolverModuleKind where
  /-- `export default`. -/
  | sourceModule
  /-- `module.exports`. -/
  | plainScript
  deriving DecidableEq

/-- Texts for members of models, in the order of their keys. -/
abbrev MemberTexts := List (String × String)

/-- The key of a member of a model. -/
def memberKey (model member : String) : String := model ++ "." ++ member

namespace MemberTexts

/-- The texts with one more, which replaces another of the same key. -/
def insert (key text : String) : MemberTexts → MemberTexts
  | [] => [(key, text)]
  | (other, old) :: rest =>
    if key < other then (key, text) :: (other, old) :: rest
    else if key = other then (key, text) :: rest
    else (other, old) :: insert key text rest

/-- The texts of a list of entries, of which later ones prevail. -/
def ofEntries (entries : List (String × String)) : MemberTexts :=
  entries.foldl (fun texts (key, value) => insert key value texts) []

/-- The text of a key. -/
def get? (texts : MemberTexts) (key : String) : Option String := texts.lookup key

end MemberTexts

/-- The settings of a run. -/
structure Config where
  /-- The directory that the output goes to. -/
  outputDir : String := "./generated"
  /-- Whether existing files are replaced. -/
  overwrite : Bool := false
  /-- Whether every file is logged. -/
  verbose : Bool := false
  /-- How the output is split. -/
  mode : OutputMode := .perModel
  /-- The file of the merged document. -/
  mergedFile : String := "schema.graphql"
  /-- How resolver files export. -/
  outputKind : ResolverModuleKind := .sourceModule
  /-- The scalar of unique identifiers. -/
  idScalar : IdScalar := .id
  /-- Whether filters are generated. -/
  filters : Bool := true
  /-- The shape of queries for a single record. -/
  lookup : LookupStyle := .uniqueFilter
  /-- Whether resolver files are generated. -/
  emitResolvers : Bool := true
  /-- The directory of resolver files below the output directory. -/
  resolverDir : String := "resolvers"
  /-- The resolvers of relations. -/
  relationResolvers : MemberTexts := []
  /-- The directives of fields. -/
  fieldDirectives : MemberTexts := []
  deriving DecidableEq

namespace Config

/-- A configuration that writes one merged document. -/
def mergedInto (file : String) (config : Config) : Config :=
  { config with mode := .merged, mergedFile := file }

/-- A configuration with the resolver of one more relation. -/
def withRelationResolver (model relation text : String) (config : Config) : Config :=
  { config with
    relationResolvers := config.relationResolvers.insert (memberKey model relation) text }

/-- A configuration with the directive of one more field. -/
def withFieldDirective (model field text : String) (config : Config) : Config :=
  { config with fieldDirectives := config.fieldDirectives.insert (memberKey model field) text }

end Config

/-- The names of the output modes. -/
def outputModes : List (String × OutputMode) := [("per-model", .perModel), ("merged", .merged)]

/-- The names of the lookup styles. -/
def lookupStyles : List (String × LookupStyle) :=
  [("unique-filter", .uniqueFilter), ("per-identifier", .perIdentifier)]

/-- The names of the kinds of resolver files. -/
def resolverModuleKinds : List (String × ResolverModuleKind) :=
  [("source-module", .sourceModule), ("plain-script", .plainScript)]

/-- The names of the identifier scalars. -/
def idScalars : List (String × IdScalar) := [("ID", .id), ("UUID", .uuid)]

/-- The name of a value in a list of names. -/
def nameIn {α : Type} [DecidableEq α] (names : List (String × α)) (value : α) : String :=
  match names.find? fun entry => decide (entry.2 = value) with
  | some (name, _) => name
  | none => ""

namespace Config

/-- The fields of a configuration. -/
def fields : List (RecordField Config) :=
  let path := readTextAs "path string"
  let texts : Decoder MemberTexts := fun dialect datum =>
    (readTextMap dialect datum).map MemberTexts.ofEntries
  [RecordField.of "output_dir" false path fun outputDir config => { config with outputDir },
   RecordField.of "overwrite" false readBoolean fun overwrite config => { config with overwrite },
   RecordField.of "verbose" false readBoolean fun verbose config => { config with verbose },
   RecordField.of "mode" false (readChoice outputModes) fun mode config => { config with mode },
   RecordField.of "merged_file" false path fun mergedFile config => { config with mergedFile },
   RecordField.of "output_kind" false (readChoice resolverModuleKinds) fun outputKind config =>
     { config with outputKind },
   RecordField.of "id_scalar" false (readChoice idScalars) fun idScalar config =>
     { config with idScalar },
   RecordField.of "filters" false readBoolean fun filters config => { config with filters },
   RecordField.of "lookup" false (readChoice lookupStyles) fun lookup config =>
     { config with lookup },
   RecordField.of "emit_resolvers" false readBoolean fun emitResolvers config =>
     { config with emitResolvers },
   RecordField.of "resolver_dir" false path fun resolverDir config => { config with resolverDir },
   RecordField.of "relation_resolvers" false texts fun relationResolvers config =>
     { config with relationResolvers },
   RecordField.of "field_directives" false texts fun fieldDirectives config =>
     { config with fieldDirectives }]

/-- A configuration. -/
def decode : Decoder Config := readRecord "GeneratorConfig" fields {}

/-- The configuration of a TOML text. -/
def parse (text : String) : Except Malformed Config := do
  let entries ← Toml.parse text
  (decode .tomlTable (.record entries)).mapError Malformed.unfit

/-- The record of a configuration. -/
def toDatum (config : Config) : Datum :=
  let texts := fun (texts : MemberTexts) =>
    Datum.record (texts.map fun (key, value) => (key, .text value))
  .record
    [("output_dir", .text config.outputDir),
     ("overwrite", .boolean config.overwrite),
     ("verbose", .boolean config.verbose),
     ("mode", .text (nameIn outputModes config.mode)),
     ("merged_file", .text config.mergedFile),
     ("output_kind", .text (nameIn resolverModuleKinds config.outputKind)),
     ("id_scalar", .text (nameIn idScalars config.idScalar)),
     ("filters", .boolean config.filters),
     ("lookup", .text (nameIn lookupStyles config.lookup)),
     ("emit_resolvers", .boolean config.emitResolvers),
     ("resolver_dir", .text config.resolverDir),
     ("relation_resolvers", texts config.relationResolvers),
     ("field_directives", texts config.fieldDirectives)]

end Config
end Generate
end EntitySdl
