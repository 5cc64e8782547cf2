import EntitySdl.Command.Switch

/-! # Command lines

A command line is read on two levels: options in front of the command, and the
options and paths of the command itself.  What an option or a path means is
settled when the next one begins, so that of two faults the one that is noticed
first counts.
-/
namespace EntitySdl
namespace Command

/-- The commands. -/
inductive CommandName where
  | generate
  | merge
  | validate
  | info
  deriving DecidableEq

/-- The word for each command. -/
def commandNames : List (String × CommandName) :=
  [("generate", .generate), ("merge", .merge), ("validate", .validate), ("info", .info)]

/-- The word that asks for the help of a command. -/
def helpWord : String := "help"

/-- How many paths are taken. -/
inductive PathCount where
  | none
  | one
  | many
  deriving DecidableEq

/-- What may be given on a level. -/
structure Level where
  /-- The options. -/
  switches : List Switch
  /-- The words that end the level. -/
  words : List String := []
  /-- The paths. -/
  paths : PathCount := .none

/-- The level in front of the command. -/
def outerLevel : Level where
  switches := Switch.shared ++ [.version]
  words := helpWord :: commandNames.map (·.1)

/-- The level of a command. -/
def CommandName.level : CommandName → Level
  | generate => {
      switches := Switch.shared ++ [.output, .overwrite, .merged, .idScalar, .lookup, .outputKind,
        .noFilters, .noResolvers, .resolverDir]
      paths := .one }
  | merge => {
      switches := Switch.shared ++ [.output, .overwrite, .idScalar]
      paths := .many }
  | validate | info => { switches := Switch.shared, paths := .one }

/-! ## Arguments -/

/-- What an argument looks like. -/
inductive Argument where
  /-- The mark after which no argument is an option. -/
  | escape
  /-- An option by its long name, with the value behind an equality sign. -/
  | long (name : String) (value : Option String)
  /-- Options by their letters. -/
  | short (letters : List Char)
  /-- A value or a path. -/
  | plain
  deriving DecidableEq

/-- What an argument looks like. -/
def Argument.ofText (text : String) : Argument :=
  match text.toList with
  | ['-', '-'] => escape
  | '-' :: '-' :: cs =>
    match cs.dropWhile (· != '=') with
    | _ :: value => long (String.ofList (cs.takeWhile (· != '='))) (some (String.ofList value))
    | [] => long (String.ofList cs) none
  | '-' :: c :: cs => short (c :: cs)
  | _ => plain

/-- What has been read but not settled. -/
inductive Pending where
  | nothing
  /-- An option, with its value if that has come. -/
  | switch (switch : Switch) (value : Option String)
  /-- Paths. -/
  | paths (texts : List String)

/-- What has been read on a level. -/
structure Progress where
  /-- What is settled. -/
  given : Given := {}
  /-- The long names of the options that are settled. -/
  met : List String := []
  /-- What is not settled. -/
  pending : Pending := .nothing

namespace Progress

/-- Whether the last option still waits for its value. -/
def awaitsValue (progress : Progress) : Bool :=
  match progress.pending with
  | .switch _ none => true
  | _ => false

/-- Settles an option with its value, if it has one. -/
def settleSwitch (switch : Switch) (value : Option String) (progress : Progress) :
    Except Usage Progress := do
  let text ← match value, switch.use with
    | some text, _ => pure text
    | none, .never => pure ""
    | none, .optional text => pure text
    | none, .always => throw .invalidValue
  if progress.met.contains switch.long then throw .repeatedOption
  let given ← switch.store text progress.given
  return { given, met := switch.long :: progress.met }

/-- Settles what is pending. -/
def settle (progress : Progress) : Except Usage Progress :=
  match progress.pending with
  | .nothing => .ok progress
  | .switch switch value => progress.settleSwitch switch value
  | .paths texts =>
    if texts.any (·.isEmpty) then .error .invalidValue
    else .ok { progress with
      given := { progress.given with paths := progress.given.paths ++ texts }
      pending := .nothing }

/-- Takes an option.  One with a value of its own, or without any, is settled at
once. -/
def takeSwitch (switch : Switch) (value : Option String) (progress : Progress) :
    Except Usage Progress := do
  let progress ← progress.settle
  match value, switch.use with
  | some text, _ => progress.settleSwitch switch (some text)
  | none, .never => progress.settleSwitch switch none
  | none, _ => return { progress with pending := .switch switch none }

/-- Takes an option by its long name. -/
def takeLong (level : Level) (name : String) (value : Option String) (progress : Progress) :
    Except Usage Progress :=
  match level.switches.find? (·.long == name) with
  | none => .error .unknownArgument
  | some switch =>
    if switch.use = .never ∧ value.isSome then .error .unneededValue
    else progress.takeSwitch switch value

/-- Takes options by their letters.  What follows the letter of an option with a
value is that value, with or without an equality sign in between. -/
def takeLetters (level : Level) : List Char → Progress → Except Usage Progress
  | [], progress => .ok progress
  | c :: cs, progress =>
    match level.switches.find? (·.short == some c) with
    | none => .error .unknownArgument
    | some switch =>
      if switch.use = .never then do takeLetters level cs (← progress.takeSwitch switch none)
      else
        progress.takeSwitch switch <| match cs with
          | [] => none
          | '=' :: value => some (String.ofList value)
          | value => some (String.ofList value)

/-- Takes a value for the last option. -/
def takeValue (text : String) (progress : Progress) : Progress :=
  match progress.pending with
  | .switch switch none => { progress with pending := .switch switch (some text) }
  | _ => progress

/-- Takes a path.  One too many is refused at once. -/
def takePath (level : Level) (escaped : Bool) (text : String) (progress : Progress) :
    Except Usage Progress :=
  match level.paths, progress.pending with
  | .many, .paths texts => .ok { progress with pending := .paths (texts ++ [text]) }
  | .many, _ => fresh
  | .one, .paths _ => .error .unknownArgument
  | .one, _ => if progress.given.paths.isEmpty then fresh else .error .unknownArgument
  | .none, _ =>
    .error (if escaped && level.words.contains text then .unknownArgument else .unknownCommand)
where
  /-- A path after something else. -/
  fresh : Except Usage Progress := do
    return { ← progress.settle with pending := .paths [text] }

/-- Takes arguments up to a word that ends the level, which is returned with what
follows it.  The flag tells whether the mark has been met after which no argument
is an option. -/
def take (level : Level) :
    Bool → List String → Progress → Except Usage (Progress × Option (String × List String))
  | _, [], progress => .ok (progress, none)
  | true, text :: rest, progress => do take level true rest (← progress.takePath level true text)
  | false, text :: rest, progress =>
    if !progress.awaitsValue && level.words.contains text then .ok (progress, some (text, rest))
    else match Argument.ofText text with
      | .escape => take level true rest progress
      | .long name value => do take level false rest (← progress.takeLong level name value)
      | .short letters => do take level false rest (← progress.takeLetters level letters)
      | .plain =>
        if progress.awaitsValue then take level false rest (progress.takeValue text)
        else do take level false rest (← progress.takePath level false text)

end Progress

/-! ## Invocations -/

/-- What is to be done. -/
inductive Task where
  /-- Generate the output of a schema. -/
  | generate (schema : String) (overrides : Overrides)
  /-- Merge SDL documents. -/
  | merge (paths : List String) (output : Option String) (overwrite : Bool)
      (idScalar : Option IdScalar)
  /-- Check a schema. -/
  | validate (schema : String)
  /-- Describe a schema. -/
  | info (schema : String)
  deriving DecidableEq

/-- A command line that makes sense. -/
structure Invocation where
  /-- Whether every file is to be logged. -/
  verbose : Bool
  /-- The configuration file that is named. -/
  config : Option String
  /-- What is to be done. -/
  task : Task
  deriving DecidableEq

/-- The task of a command with what was given for it. -/
def CommandName.task (given : Given) : CommandName → Except Usage Task
  | generate => do return .generate (← first) given.overrides
  | merge => do
    let _ ← first
    return .merge given.paths given.overrides.output given.overrides.overwrite
      given.overrides.idScalar
  | validate => do return .validate (← first)
  | info => do return .info (← first)
where
  /-- The first path, which every command needs. -/
  first : Except Usage String :=
    match given.paths with
    | [] => .error .missingArgument
    | path :: _ => .ok path

/-- The answer to a request for the help of a command. -/
def helpAnswer : List String → Usage
  | [] => .helpWanted
  | [word] => if outerLevel.words.contains word then .helpWanted else .unknownCommand
  | _ => .unknownCommand

/-- What a command line asks for.  The options in front of the command are settled
last; where both levels give one, the inner one counts. -/
def Invocation.parse (arguments : List String) : Except Usage Invocation := do
  let (outer, word) ← Progress.take outerLevel false arguments {}
  match word with
  | none =>
    let outer ← outer.settle
    throw (if outer.met.isEmpty then .nothingGiven else .missingCommand)
  | some (word, rest) =>
    match commandNames.lookup word with
    | none => throw (helpAnswer rest)
    | some name =>
      let (inner, _) ← Progress.take name.level false rest {}
      let inner := (← inner.settle).given
      let task ← name.task inner
      let outer := (← outer.settle).given
      return ⟨inner.verbose || outer.verbose, inner.config <|> outer.config, task⟩

end Command
end EntitySdl
