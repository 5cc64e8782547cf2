import EntitySdl.Json.Reader
import EntitySdl.Datum.Decoding

/-! # Values from JSON texts

A value is decoded once its text is read, before the rest of the document is
looked at.
-/
namespace EntitySdl
namespace Json

open Datum

/-- The value that a JSON text denotes. -/
def decodeText {α : Type} (decode : Decoder α) (text : String) : Except Malformed α := do
  let (datum, rest) ← readValue maxDepth text.toList
  let value ← (decode .json datum).mapError Malformed.unfit
  readEnd value rest

end Json
end EntitySdl
