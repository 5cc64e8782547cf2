import EntitySdl.Name.Inflection
import EntitySdl.Name.Words

/-! # Names of generated types and root fields

Every generated name follows from the name of a model or a member.  The
collection query has the plural of the model's name and the lookup its singular;
a plural that equals the singular takes another `s`, so that the two differ.
-/
namespace EntitySdl
namespace Generate
namespace Naming

open Name

/-- The plural of a model's name. -/
def pluralName (model : String) : String :=
  let many := plural model
  if many = singular model then many ++ "s" else many

/-- The query for many records. -/
def collectionQuery (model : String) : String := camel (pluralName model)

/-- The query for the number of records. -/
def metaQuery (model : String) : String := collectionQuery model ++ "Meta"

/-- The query for a single record. -/
def singleQuery (model : String) : String := camel (singular model)

/-- The query for a single record by one of its properties. -/
def lookupQuery (model property : String) : String :=
  singleQuery model ++ "By" ++ pascal property

/-- The input with the arguments of an operation. -/
def argsType (operation : String) : String := pascal operation ++ "Args"

/-- The type of the number of records. -/
def metaType (model : String) : String := model ++ "Meta"

/-- The input that filters records. -/
def filterType (model : String) : String := model ++ "Filter"

/-- The input that picks a single record. -/
def uniqueFilterType (model : String) : String := model ++ "UniqueFilter"

/-- The input that stands for a model in arguments. -/
def inputType (model : String) : String := model ++ "Input"

end Naming
end Generate
end EntitySdl
