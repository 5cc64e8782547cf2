/-! # Type references

A type of the SDL is a name or a list of another type, either of them with the
mark for values that are never null.
-/
namespace EntitySdl
namespace Sdl

/-- A reference to a type. -/
inductive TypeRef where
  /-- A named type. -/
  | named (name : String) (required : Bool)
  /-- A list. -/
  | list (member : TypeRef) (required : Bool)
  deriving DecidableEq

namespace TypeRef

/-- The mark of a type that is never null. -/
def mark (required : Bool) : String := if required then "!" else ""

/-- A type reference as it is written. -/
def text : TypeRef → String
  | named name required => name ++ mark required
  | list member required => "[" ++ member.text ++ "]" ++ mark required

/-- The name inside all lists. -/
def innermost : TypeRef → String
  | named name _ => name
  | list member _ => member.innermost

end TypeRef

/-- A text without the one exclamation mark that it may end with. -/
def stripMark (text : String) : String :=
  match text.toList.reverse with
  | '!' :: rest => String.ofList rest.reverse
  | _ => text

/-- A type reference without the mark that its text may end with. -/
def TypeRef.optional : TypeRef → TypeRef
  | named name true => named name false
  | named name false => named (stripMark name) false
  | list member _ => list member false

theorem stripMark_append (text : String) : stripMark (text ++ "!") = text := by
  simp [stripMark, String.toList_append]

end Sdl
end EntitySdl
