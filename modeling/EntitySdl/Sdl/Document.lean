import EntitySdl.Sdl.Furthest
import EntitySdl.Sdl.Grammar
import EntitySdl.Json.Number

/-! # Type system documents

Reading a document checks it against the grammar and against three further
rules: a schema definition names a root type for queries, no root is named twice
in it, and every number is in the range of a double.  Of a document that is read,
the definitions and their places are kept.
-/
namespace EntitySdl
namespace Sdl

/-- Why a text is no type system document. -/
inductive DocumentFault where
  /-- The text does not match the grammar. -/
  | ungrammatical (attempts : Attempts Rule)
  /-- A number is out of range. -/
  | numberOutOfRange
  /-- A schema definition names no root for queries. -/
  | missingQueryRoot
  /-- A schema definition names a root twice. -/
  | multipleRoots (operation : String)

namespace Tree

variable {ρ : Type}

/-- The rule of a node. -/
def rule : Tree ρ → ρ
  | node rule _ _ _ => rule

/-- The number of characters before a node. -/
def start : Tree ρ → Nat
  | node _ start _ _ => start

/-- The text of a node. -/
def text : Tree ρ → List Char
  | node _ _ text _ => text

/-- The nodes inside a node. -/
def children : Tree ρ → List (Tree ρ)
  | node _ _ _ children => children

/-- The nodes of a rule directly inside a node. -/
def childrenOf [DecidableEq ρ] (tree : Tree ρ) (rule : ρ) : List (Tree ρ) :=
  tree.children.filter fun child => decide (child.rule = rule)

/-- The first node of a rule directly inside a node. -/
def child? [DecidableEq ρ] (tree : Tree ρ) (rule : ρ) : Option (Tree ρ) :=
  (tree.childrenOf rule).head?

end Tree

namespace Tree

mutual

/-- The texts of all nodes of a rule in a tree, in order. -/
def textsOf {ρ : Type} [DecidableEq ρ] (wanted : ρ) : Tree ρ → List (List Char)
  | node rule _ text children =>
    if rule = wanted then text :: textsOfAll wanted children else textsOfAll wanted children

/-- The texts of all nodes of a rule in several trees, in order. -/
def textsOfAll {ρ : Type} [DecidableEq ρ] (wanted : ρ) : List (Tree ρ) → List (List Char)
  | [] => []
  | tree :: trees => tree.textsOf wanted ++ textsOfAll wanted trees

end

mutual

/-- A tree without places, in which only tokens keep their texts.  Two documents
with equal trees of this kind say the same. -/
def unplaced : Tree Rule → Tree Rule
  | node rule _ text children =>
    node rule 0 (if rule.isToken then text else []) (unplacedAll children)

/-- Several trees without places. -/
def unplacedAll : List (Tree Rule) → List (Tree Rule)
  | [] => []
  | tree :: trees => tree.unplaced :: unplacedAll trees

end

end Tree

/-- The fuel that suffices for a text: between two characters no more steps are
taken than the grammar has parts. -/
def fuelFor (source : List Char) : Nat := 1024 * (source.length + 1)

/-- The match of a document. -/
def matchDocument (source : List Char) : Outcome Rule :=
  Grammar.sdl.run (fuelFor source) .spaced (.rule .document) ⟨0, source⟩

/-- The rules tried at the furthest place of a text that is no document. -/
def documentAttempts (source : List Char) : Attempts Rule :=
  Grammar.sdl.trace (fuelFor source) .spaced false (.rule .document) ⟨0, source⟩ {}

/-- Whether a number is in range. -/
def isInRange (number : List Char) : Bool :=
  let read := match number with
    | '-' :: digits => Json.readNumber true digits
    | digits => Json.readNumber false digits
  read.toOption.isSome

/-- The roots that a schema definition names, none of them twice. -/
def checkRoots : List (List Char) → List (List Char) → Except DocumentFault (List (List Char))
  | [], named => .ok named
  | operation :: rest, named =>
    if named.contains operation then .error (.multipleRoots (String.ofList operation))
    else checkRoots rest (operation :: named)

/-- The rules for a schema definition. -/
def checkSchemaDefinition (tree : Tree Rule) : Except DocumentFault Unit := do
  let operations := (tree.childrenOf .rootDefinition).flatMap (·.textsOf .operationType)
  let named ← checkRoots operations []
  if (tree.child? .extend).isNone && !named.contains "query".toList then
    throw .missingQueryRoot

/-- The rules for a definition beyond the grammar. -/
def checkDefinition (definition : Tree Rule) : Except DocumentFault Unit := do
  if !(definition.textsOf .number).all isInRange then throw .numberOutOfRange
  match definition.child? .schemaDefinition with
  | some schema => checkSchemaDefinition schema
  | none => return

/-- The definitions of a document. -/
def parseDocument (source : List Char) : Except DocumentFault (List (Tree Rule)) :=
  match matchDocument source with
  | .matched _ trees => do
    let definitions := trees.flatMap (·.childrenOf .definition)
    definitions.forM checkDefinition
    return definitions
  | _ => .error (.ungrammatical (documentAttempts source))

/-- The root types whose fields every part of a document may contribute. -/
inductive RootKind where
  | query
  | mutation
  deriving DecidableEq

/-- The object type that a definition defines or extends, if it does. -/
def objectType? (definition : Tree Rule) : Option (Tree Rule) :=
  (definition.child? .typeDefinition).bind (·.child? .objectType)

/-- The root type that a definition defines or extends, if it does. -/
def rootKind? (definition : Tree Rule) : Option RootKind := do
  let name ← (← objectType? definition).child? .name
  if name.text = "Query".toList then some .query
  else if name.text = "Mutation".toList then some .mutation
  else none

/-- The places of the fields of an object type. -/
def fieldStarts (definition : Tree Rule) : List Nat :=
  ((objectType? definition).bind (·.child? .fieldsDefinition)).toList.flatMap fun fields =>
    (fields.childrenOf .fieldDefinition).map Tree.start

end Sdl
end EntitySdl
