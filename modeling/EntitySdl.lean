import EntitySdl.Command.Failure
import EntitySdl.Command.Inspect
import EntitySdl.Command.Line
import EntitySdl.Command.Run
import EntitySdl.Command.Settings
import EntitySdl.Command.Sources
import EntitySdl.Command.Switch
import EntitySdl.Datum.Basic
import EntitySdl.Datum.Decoding
import EntitySdl.Datum.Malformed
import EntitySdl.Fault
import EntitySdl.Files.Path
import EntitySdl.Files.SystemFault
import EntitySdl.Files.Tree
import EntitySdl.Files.Workspace
import EntitySdl.Files.World
import EntitySdl.Generate.Composition
import EntitySdl.Generate.Config
import EntitySdl.Generate.Emission
import EntitySdl.Generate.Filter
import EntitySdl.Generate.Generator
import EntitySdl.Generate.Naming
import EntitySdl.Generate.Project
import EntitySdl.Generate.Resolvers
import EntitySdl.Generate.SdlType
import EntitySdl.Generate.Summary
import EntitySdl.Json.Document
import EntitySdl.Json.Number
import EntitySdl.Json.Printer
import EntitySdl.Json.Reader
import EntitySdl.Main
import EntitySdl.Name.Identifier
import EntitySdl.Name.Inflection
import EntitySdl.Name.InflectionRules
import EntitySdl.Name.Pattern
import EntitySdl.Name.Words
import EntitySdl.Number.Nearest
import EntitySdl.Number.Shortest
import EntitySdl.Proofs.Addresses
import EntitySdl.Proofs.Blocks
import EntitySdl.Proofs.BodyLines
import EntitySdl.Proofs.Breaches
import EntitySdl.Proofs.Bytes
import EntitySdl.Proofs.CamelCase
import EntitySdl.Proofs.Changes
import EntitySdl.Proofs.ClosedDocument
import EntitySdl.Proofs.CollectedFiles
import EntitySdl.Proofs.Collisions
import EntitySdl.Proofs.ComposedParts
import EntitySdl.Proofs.Cuts
import EntitySdl.Proofs.DeclaredScalars
import EntitySdl.Proofs.Definitions
import EntitySdl.Proofs.Deliveries
import EntitySdl.Proofs.Derivation
import EntitySdl.Proofs.DerivedNames
import EntitySdl.Proofs.Documents
import EntitySdl.Proofs.EmittedFiles
import EntitySdl.Proofs.Endings
import EntitySdl.Proofs.EndingsApart
import EntitySdl.Proofs.FieldLines
import EntitySdl.Proofs.FieldNames
import EntitySdl.Proofs.FirstFault
import EntitySdl.Proofs.FragmentTexts
import EntitySdl.Proofs.Fuel
import EntitySdl.Proofs.GeneratedSdl
import EntitySdl.Proofs.Heads
import EntitySdl.Proofs.HelperTypes
import EntitySdl.Proofs.Ignored
import EntitySdl.Proofs.Inflections
import EntitySdl.Proofs.InsertedComments
import EntitySdl.Proofs.InsertedLines
import EntitySdl.Proofs.InsertedReading
import EntitySdl.Proofs.JoinedSchemas
import EntitySdl.Proofs.JsonRoundTrip
import EntitySdl.Proofs.KeptDefinitions
import EntitySdl.Proofs.Keywords
import EntitySdl.Proofs.Layout
import EntitySdl.Proofs.LetterCase
import EntitySdl.Proofs.Lexemes
import EntitySdl.Proofs.Listings
import EntitySdl.Proofs.Matching
import EntitySdl.Proofs.MemberNames
import EntitySdl.Proofs.MergedFiles
import EntitySdl.Proofs.MergedOutput
import EntitySdl.Proofs.MergedSources
import EntitySdl.Proofs.MergedTwice
import EntitySdl.Proofs.MovedTrees
import EntitySdl.Proofs.NewPlaces
import EntitySdl.Proofs.Nodes
import EntitySdl.Proofs.NullableTypes
import EntitySdl.Proofs.Numbers
import EntitySdl.Proofs.Offsets
import EntitySdl.Proofs.Outcome
import EntitySdl.Proofs.Outline
import EntitySdl.Proofs.OutputFiles
import EntitySdl.Proofs.OverrunBodies
import EntitySdl.Proofs.OverrunDocuments
import EntitySdl.Proofs.PartedDefinitions
import EntitySdl.Proofs.Paths
import EntitySdl.Proofs.PatternForms
import EntitySdl.Proofs.Pieces
import EntitySdl.Proofs.Places
import EntitySdl.Proofs.Prediction
import EntitySdl.Proofs.Previews
import EntitySdl.Proofs.Pruning
import EntitySdl.Proofs.QueriesApart
import EntitySdl.Proofs.Reading
import EntitySdl.Proofs.References
import EntitySdl.Proofs.RelaidLines
import EntitySdl.Proofs.RelaidReading
import EntitySdl.Proofs.Relayout
import EntitySdl.Proofs.Replacements
import EntitySdl.Proofs.ResolverAgreement
import EntitySdl.Proofs.RootBodies
import EntitySdl.Proofs.ScalarDeclarations
import EntitySdl.Proofs.SchemaRoundTrip
import EntitySdl.Proofs.SchemaSections
import EntitySdl.Proofs.SeparateSettings
import EntitySdl.Proofs.Shifts
import EntitySdl.Proofs.Spelling
import EntitySdl.Proofs.StrayFields
import EntitySdl.Proofs.Strings
import EntitySdl.Proofs.Success
import EntitySdl.Proofs.TomlLines
import EntitySdl.Proofs.TomlSections
import EntitySdl.Proofs.TomlStrings
import EntitySdl.Proofs.Trees
import EntitySdl.Proofs.Trimming
import EntitySdl.Proofs.TypeReadings
import EntitySdl.Proofs.TypeRefs
import EntitySdl.Proofs.TypeShorthand
import EntitySdl.Proofs.TypeTexts
import EntitySdl.Proofs.Walks
import EntitySdl.Proofs.WellFormed
import EntitySdl.Proofs.WholeRuns
import EntitySdl.Proofs.Worlds
import EntitySdl.Schema.Basic
import EntitySdl.Schema.Data
import EntitySdl.Schema.File
import EntitySdl.Schema.PropertyType
import EntitySdl.Schema.Store
import EntitySdl.Schema.TypeForm
import EntitySdl.Schema.Validation
import EntitySdl.Sdl.Block
import EntitySdl.Sdl.Document
import EntitySdl.Sdl.Fragment
import EntitySdl.Sdl.Furthest
import EntitySdl.Sdl.Grammar
import EntitySdl.Sdl.Peg
import EntitySdl.Sdl.Position
import EntitySdl.Sdl.Report
import EntitySdl.Sdl.Split
import EntitySdl.Sdl.TypeRef
import EntitySdl.Text.Blank
import EntitySdl.Text.CaseMap
import EntitySdl.Text.CharSet
import EntitySdl.Text.Letters
import EntitySdl.Text.Quoted
import EntitySdl.Text.WordCharacter
import EntitySdl.Toml.Number
import EntitySdl.Toml.Printer
import EntitySdl.Toml.Reader
import EntitySdl.Toml.Table
import EntitySdl.Toml.Text
