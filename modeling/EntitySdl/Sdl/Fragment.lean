import EntitySdl.Sdl.Block
import EntitySdl.Schema.PropertyType

/-! # Fragments of a document

A fragment is the SDL of one model or one file in three sections: its
definitions, and the lines in the bodies of its `Query` and its `Mutation` type.
Merging puts fragments together into one document with one type of each root.
-/
namespace EntitySdl
namespace Sdl

/-- A part of a document, by sections. -/
structure Fragment where
  /-- The model or file that it comes from. -/
  name : String
  /-- The definitions other than the root types. -/
  definitions : List String := []
  /-- The lines of the `Query` type. -/
  queryFields : List String := []
  /-- The lines of the `Mutation` type. -/
  mutationFields : List String := []
  deriving DecidableEq

/-- Blocks with an empty line between them. -/
def joinBlocks (blocks : List String) : String :=
  if blocks.isEmpty then "" else "\n\n".intercalate blocks ++ "\n"

/-- The root type of a name, unless it has no lines. -/
def rootBlock (name : String) (lines : List String) : List String :=
  if lines.isEmpty then [] else [renderBlock .type name lines]

namespace Fragment

/-- Whether a fragment holds nothing. -/
def isEmpty (fragment : Fragment) : Bool :=
  fragment.definitions.isEmpty && fragment.queryFields.isEmpty && fragment.mutationFields.isEmpty

/-- A fragment as a document of its own. -/
def render (fragment : Fragment) : String :=
  joinBlocks (fragment.definitions ++ rootBlock "Query" fragment.queryFields ++
    rootBlock "Mutation" fragment.mutationFields)

end Fragment

/-- Whether a definition declares a scalar, by the word that it begins with. -/
def isScalarDeclaration (definition : String) : Bool :=
  (Text.dropStart? "scalar ".toList (Text.trimStart definition.toList)).isSome

/-- The scalars that every merged document declares. -/
def builtinScalars (idScalar : IdScalar) : List String :=
  "scalar Date" :: match idScalar with
    | .id => []
    | .uuid => ["scalar " ++ idScalar.sdlName]

/-- The scalar declarations after further ones; one that repeats another up to
blanks is left out. -/
def addScalars (scalars : List String) : List String → List String
  | [] => scalars
  | scalar :: rest =>
    if scalars.any fun other => Text.singleSpaced other == Text.singleSpaced scalar then
      addScalars scalars rest
    else addScalars (scalars ++ [scalar]) rest

/-- One document of several fragments: scalars first, then the root types, then
all other definitions. -/
def merge (fragments : List Fragment) (idScalar : IdScalar) : String :=
  let definitions := fragments.flatMap Fragment.definitions
  let scalars := addScalars (builtinScalars idScalar) (definitions.filter isScalarDeclaration)
  joinBlocks (["\n".intercalate scalars] ++
    rootBlock "Query" (fragments.flatMap Fragment.queryFields) ++
    rootBlock "Mutation" (fragments.flatMap Fragment.mutationFields) ++
    definitions.filter (!isScalarDeclaration ·))

end Sdl
end EntitySdl
