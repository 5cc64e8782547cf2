import EntitySdl.Sdl.TypeRef
import EntitySdl.Text.Blank

/-! # Fields and blocks

A block is a type or an input with its fields, one on each line.  A field has a
name, arguments, a type and directives that are kept as text.
-/
namespace EntitySdl
namespace Sdl

/-- A field of a block. -/
structure FieldLine where
  /-- Its name. -/
  name : String
  /-- Its arguments, with their types. -/
  arguments : List (String × TypeRef) := []
  /-- Its type. -/
  type : TypeRef
  /-- What is written after its type. -/
  directive : Option String := none
  deriving DecidableEq

/-- A field as it is written. -/
def FieldLine.text (field : FieldLine) : String :=
  let arguments :=
    if field.arguments.isEmpty then ""
    else "(" ++ ", ".intercalate
      (field.arguments.map fun (name, type) => name ++ ": " ++ type.text) ++ ")"
  let directive := match field.directive with
    | some directive => " " ++ Text.trimmed directive
    | none => ""
  field.name ++ arguments ++ ": " ++ field.type.text ++ directive

/-- The kinds of blocks that are generated. -/
inductive BlockKind where
  | type
  | input
  deriving DecidableEq

/-- The keyword of a kind of block. -/
def BlockKind.keyword : BlockKind → String
  | type => "type"
  | input => "input"

/-- A named block with its lines, each indented by two spaces. -/
def renderBlock (kind : BlockKind) (name : String) (lines : List String) : String :=
  kind.keyword ++ " " ++ name ++ " \x7b\n" ++
    String.join (lines.map fun line => "  " ++ line ++ "\n") ++ "\x7d"

/-- A type or an input with its fields. -/
structure Block where
  /-- Whether it is a type or an input. -/
  kind : BlockKind
  /-- Its name. -/
  name : String
  /-- Its fields. -/
  fields : List FieldLine
  deriving DecidableEq

/-- A block as it is written. -/
def Block.text (block : Block) : String :=
  renderBlock block.kind block.name (block.fields.map FieldLine.text)

end Sdl
end EntitySdl
