import EntitySdl.Datum.Basic

/-! # Tables under construction

A table is opened by a header, by a dotted key, or by the way to another table.
Once its own header or a value has closed it, it takes no further entries from
elsewhere.  An operation that breaks this fails.
-/
namespace EntitySdl
namespace Toml

/-- What a key of a table stands for. -/
inductive Entry where
  /-- A value, which is closed. -/
  | value (datum : Datum)
  /-- A table: its entries, whether it has no header of its own, and whether a
  dotted key has opened it. -/
  | table (entries : List (String × Entry)) (implicit dotted : Bool)
  /-- The tables of a list, each under a header. -/
  | tables (elements : List Entry)

/-- A table under construction. -/
structure Table where
  /-- Its entries, in the order of their keys' first use. -/
  entries : List (String × Entry) := []
  /-- Whether it has no header of its own. -/
  implicit : Bool := false
  /-- Whether a dotted key has opened it. -/
  dotted : Bool := false

/-- A table as an entry of another. -/
def Table.entry (table : Table) : Entry := .table table.entries table.implicit table.dotted

/-- The entry of a key replaced, or added at the end. -/
def put (key : String) (entry : Entry) : List (String × Entry) → List (String × Entry)
  | [] => [(key, entry)]
  | (other, old) :: rest =>
    if other = key then (key, entry) :: rest else (other, old) :: put key entry rest

/-- Entries with one replaced or added. -/
def Table.put (table : Table) (key : String) (entry : Entry) : Table :=
  { table with entries := Toml.put key entry table.entries }

/-- The entry of a key. -/
def Table.get? (table : Table) (key : String) : Option Entry := table.entries.lookup key

/-- A table without the entry of a key. -/
def Table.erase (table : Table) (key : String) : Table :=
  { table with entries := table.entries.filter (·.1 != key) }

/-- A change of the table that a path leads to.  Missing tables on the way are
opened, of a list of tables the last one is entered, and a dotted key does not
enter a table that has a header. -/
def descend (dotted : Bool) (change : Table → Option Table) : List String → Table → Option Table
  | [], table => change table
  | key :: path, table =>
    match table.get? key with
    | none => do
      let child ← descend dotted change path { implicit := true, dotted := dotted }
      return table.put key child.entry
    | some (.table entries implicit opened) =>
      if dotted && !implicit then none
      else do
        let child ← descend dotted change path ⟨entries, implicit, opened⟩
        return table.put key child.entry
    | some (.tables elements) =>
      match elements.getLast? with
      | some (.table entries implicit opened) => do
        let child ← descend dotted change path ⟨entries, implicit, opened⟩
        return table.put key (.tables (elements.dropLast ++ [child.entry]))
      | _ => none
    | some (.value _) => none

/-- A path in front of its last key. -/
def splitPath (path : List String) : List String × String :=
  (path.dropLast, path.getLast?.getD "")

/-- A value under a key, which may be dotted. -/
def addPair (path : List String) (value : Datum) (table : Table) : Option Table :=
  let (way, key) := splitPath path
  descend true (fun table =>
    if table.dotted == way.isEmpty then none
    else if (table.get? key).isSome then none
    else some (table.put key (.value value))) way table

mutual

/-- What an entry stands for. -/
def Entry.toDatum : Entry → Datum
  | .value datum => datum
  | .table entries _ _ => .record (entriesToData entries)
  | .tables elements => .list (elementsToData elements)
termination_by structural entry => entry

/-- What the entries of a table stand for. -/
def entriesToData : List (String × Entry) → List (String × Datum)
  | [] => []
  | (key, entry) :: entries => (key, entry.toDatum) :: entriesToData entries
termination_by structural entries => entries

/-- What the tables of a list stand for. -/
def elementsToData : List Entry → List Datum
  | [] => []
  | element :: elements => element.toDatum :: elementsToData elements
termination_by structural elements => elements

end

/-- What a table stands for. -/
def Table.toDatum (table : Table) : Datum := .record (entriesToData table.entries)

/-- A document under construction: all tables but the last one, and that one with
its path. -/
structure Draft where
  /-- The tables that are complete. -/
  root : Table := {}
  /-- The table that pairs go into. -/
  current : Table := {}
  /-- Its path; without one it is the document itself. -/
  path : List String := []
  /-- Whether it is an element of a list of tables. -/
  isElement : Bool := false

namespace Draft

/-- All tables, once the last one is put in its place. -/
def finish (draft : Draft) : Option Table :=
  match draft.path with
  | [] => some draft.current
  | path =>
    let (way, key) := splitPath path
    descend false (fun table =>
      if draft.isElement then
        match table.get? key with
        | none => some (table.put key (.tables [draft.current.entry]))
        | some (.tables elements) =>
          some (table.put key (.tables (elements ++ [draft.current.entry])))
        | _ => none
      else match table.get? key with
        | none => some (table.put key draft.current.entry)
        | some (.table _ true _) => some (table.put key draft.current.entry)
        | _ => none) way draft.root

/-- A draft with one more pair. -/
def pair (path : List String) (value : Datum) (draft : Draft) : Option Draft := do
  return { draft with current := ← addPair path value draft.current }

/-- The entry at a path, and a table with the way to it opened. -/
def lookAhead (path : List String) (root : Table) : Option (Table × Option Entry) := do
  let (way, key) := splitPath path
  let opened ← descend false some way root
  return (opened, entryAt way key opened)
where
  /-- The entry of a key in the table that a path leads to. -/
  entryAt : List String → String → Table → Option Entry
    | [], key, table => table.get? key
    | step :: way, key, table =>
      match table.get? step with
      | some (.table entries implicit dotted) => entryAt way key ⟨entries, implicit, dotted⟩
      | some (.tables elements) => match elements.getLast? with
        | some (.table entries implicit dotted) => entryAt way key ⟨entries, implicit, dotted⟩
        | _ => none
      | _ => none

/-- A draft with a header of a table.  A table that was only opened on the way to
others is taken up again. -/
def header (path : List String) (draft : Draft) : Option Draft := do
  let root ← draft.finish
  let (root, entry) ← lookAhead path root
  let (way, key) := splitPath path
  let current ← match entry with
    | none => some ({} : Table)
    | some (.table entries true false) => some ({ entries } : Table)
    | _ => none
  let root ← descend false (fun table => some (table.erase key)) way root
  return { root, current, path, isElement := false }

/-- A draft with a header of an element of a list of tables. -/
def element (path : List String) (draft : Draft) : Option Draft := do
  let root ← draft.finish
  let (root, entry) ← lookAhead path root
  match entry with
  | none | some (.tables _) => return { root, current := {}, path, isElement := true }
  | _ => none

end Draft
end Toml
end EntitySdl
