import EntitySdl.Text.Quoted

/-! # Data

A datum is what a document of a data format denotes: a scalar, a list, or a
record whose entries keep their order.  A key may occur twice in a record; it is
for the reader of the record to refuse that.
-/
namespace EntitySdl

/-- The content of a data document. -/
inductive Datum where
  /-- No value. -/
  | null
  /-- A truth value. -/
  | boolean (value : Bool)
  /-- A whole number. -/
  | integer (value : Int)
  /-- A number with a fraction or an exponent, or one too large for an integer. -/
  | float (value : Float)
  /-- A text. -/
  | text (value : String)
  /-- A list. -/
  | list (items : List Datum)
  /-- A record, in the order of its entries. -/
  | record (entries : List (String × Datum))
  deriving Inhabited

namespace Datum

/-- How a message names a datum, given the writing of floats. -/
def describe (floatText : Float → String) : Datum → String
  | null => "null"
  | boolean value => "boolean `" ++ (if value then "true" else "false") ++ "`"
  | integer value => "integer `" ++ value.repr ++ "`"
  | float value => "floating point `" ++ floatText value ++ "`"
  | text value => "string " ++ Text.quoted value
  | list _ => "sequence"
  | record _ => "map"

end Datum
end EntitySdl
