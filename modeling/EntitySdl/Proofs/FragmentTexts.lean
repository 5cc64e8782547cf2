import EntitySdl.Proofs.CamelCase
import EntitySdl.Proofs.GeneratedSdl
import EntitySdl.Proofs.LetterCase

/-! # What the texts of a fragment declare

A composition is kept in blocks and fields, and its fragment has their texts.  The names can
be read off these texts again: the name of a definition is the word behind its keyword, that
of a root field stands before its arguments and its type, and its arguments stand between
brackets.  So what holds of the blocks and the root fields of a composition is a property of
the text that is generated.
-/
namespace EntitySdl
namespace Sdl

/-! ### Readings -/

/-- The word that a definition begins with. -/
def keywordOf (definition : String) : String :=
  String.ofList (definition.toList.takeWhile (· != ' '))

/-- The name that a definition declares, which is the word behind its keyword. -/
def declaredName (definition : String) : String :=
  String.ofList (((definition.toList.dropWhile (· != ' ')).drop 1).takeWhile (· != ' '))

/-- The name at the start of a line, before the arguments and the type. -/
def headOf (line : String) : String := String.ofList (line.toList.takeWhile isHeadCharacter)

/-- An argument, which has its name before a colon and its type behind it. -/
def readArgument (argument : List Char) : String × String :=
  (String.ofList (argument.takeWhile (· != ':')),
    String.ofList ((argument.dropWhile (· != ':')).drop 2))

/-- The arguments of a line with their types, which stand behind its name in brackets, with
commas between them. -/
def argumentsOf (line : String) : List (String × String) :=
  match line.toList.dropWhile isHeadCharacter with
  | '(' :: rest => ((rest.takeWhile (· != ')')).splitOn ',').map fun argument =>
      readArgument (argument.dropWhile (· == ' '))
  | _ => []

/-- A definition has a keyword, a name, and a line for each field that begins with its
name. -/
structure Declares (definition keyword name : String) (fields : List String) : Prop where
  /-- It begins with the keyword. -/
  startsWith : keywordOf definition = keyword
  /-- Its name stands behind. -/
  isCalled : declaredName definition = name
  /-- The fields stand between braces, each with its type on a line of its own. -/
  lines : ∃ lines : List (String × String), lines.map Prod.fst = fields ∧
    definition = keyword ++ " " ++ name ++ " \x7b\n" ++
      String.join (lines.map fun (field, type) => "  " ++ field ++ ": " ++ type ++ "\n") ++ "\x7d"

/-- A line has the name and the arguments of a field. -/
structure DeclaresField (line : String) (field : FieldLine) : Prop where
  /-- It begins with the name. -/
  name : headOf line = field.name
  /-- The arguments stand in its brackets, each with its type. -/
  arguments : argumentsOf line = field.arguments.map fun (argument, type) =>
    (argument, type.text)

/-! ### Fields -/

section Fields

variable {field : FieldLine}

/-- What stands behind the name and the arguments of a field. -/
def FieldLine.rest (field : FieldLine) : String :=
  field.type.text ++ match field.directive with
    | some directive => " " ++ Text.trimmed directive
    | none => ""

theorem FieldLine.text_eq (field : FieldLine) : field.text = field.name ++
    (if field.arguments.isEmpty then ""
      else "(" ++ ", ".intercalate (field.arguments.map fun (argument, type) =>
        argument ++ ": " ++ type.text) ++ ")") ++ ": " ++ field.rest :=
  String.append_assoc

theorem FieldLine.text_of_arguments_nil (h : field.arguments = []) :
    field.text = field.name ++ ": " ++ field.rest := by
  simp only [field.text_eq, h, List.isEmpty_nil, if_true, String.append_empty]

/-- A line goes on with a colon behind the name of a field without arguments. -/
theorem FieldLine.exists_colon (h : field.arguments = []) :
    ∃ rest, field.text.toList = field.name.toList ++ ':' :: rest := by
  refine ⟨' ' :: field.rest.toList, ?_⟩
  rw [FieldLine.text_of_arguments_nil h, String.append_assoc, String.toList_append,
    String.toList_append]
  rfl

/-- A line goes on with the arguments in brackets if there are any. -/
theorem FieldLine.exists_brackets (h : field.arguments ≠ []) :
    ∃ rest, field.text.toList = field.name.toList ++ '(' ::
      (", ".toList.intercalate (field.arguments.map fun (argument, type) =>
        (argument ++ ": " ++ type.text).toList) ++ ')' :: rest) := by
  refine ⟨(": " ++ field.rest).toList, ?_⟩
  rw [field.text_eq, if_neg (by simpa using h), String.append_assoc, String.append_assoc,
    String.append_assoc, String.toList_append, String.toList_append, String.toList_append,
    String.toList_intercalate, List.map_map, List.append_assoc, String.toList_append]
  rfl

theorem headOf_text (h : ∀ c ∈ field.name.toList, isHeadCharacter c) :
    headOf field.text = field.name := by
  obtain ⟨mark, rest, hmark, htext⟩ : ∃ mark rest, isHeadCharacter mark = false ∧
      field.text.toList = field.name.toList ++ mark :: rest := by
    by_cases harguments : field.arguments = []
    · obtain ⟨rest, hrest⟩ := FieldLine.exists_colon harguments
      exact ⟨':', rest, rfl, hrest⟩
    · obtain ⟨rest, hrest⟩ := FieldLine.exists_brackets harguments
      exact ⟨'(', _, rfl, hrest⟩
  rw [headOf, htext, List.takeWhile_append_of_pos h, List.takeWhile_cons_of_neg (by simp [hmark]),
    List.append_nil, String.ofList_toList]

/-- What stands before a character and what stands behind it. -/
theorem takeWhile_until {mark : Char} {word rest : List Char} (h : mark ∉ word) :
    (word ++ mark :: rest).takeWhile (· != mark) = word ∧
      (word ++ mark :: rest).dropWhile (· != mark) = mark :: rest := by
  have hword : ∀ c ∈ word, (c != mark) = true := by
    intro c hc
    rw [bne_iff_ne]
    rintro rfl
    exact h hc
  rw [List.takeWhile_append_of_pos hword, List.takeWhile_cons_of_neg (by simp),
    List.dropWhile_append_of_pos hword, List.dropWhile_cons_of_neg (by simp), List.append_nil]
  exact ⟨rfl, rfl⟩

theorem readArgument_text {name : String} (h : ':' ∉ name.toList) (type : TypeRef) :
    readArgument (name ++ ": " ++ type.text).toList = (name, type.text) := by
  have htext : (name ++ ": " ++ type.text).toList =
      name.toList ++ ':' :: ' ' :: type.text.toList := by
    rw [String.append_assoc, String.toList_append, String.toList_append]
    rfl
  rw [readArgument, htext, (takeWhile_until h).1, (takeWhile_until h).2, String.ofList_toList]
  show (name, String.ofList type.text.toList) = _
  rw [String.ofList_toList]

/-- An argument that ends neither at a comma nor at a bracket, and does not begin with a
blank. -/
def IsClosedArgument (argument : List Char) : Prop :=
  ',' ∉ argument ∧ ')' ∉ argument ∧ argument.head? ≠ some ' '

/-- An argument that can be read back, with its name and its type. -/
structure IsReadableArgument (argument : String × TypeRef) : Prop where
  /-- Its name ends at the colon. -/
  colon : ':' ∉ argument.1.toList
  /-- The argument is told from others. -/
  closed : IsClosedArgument (argument.1 ++ ": " ++ argument.2.text).toList

/-- A blank in front is dropped with those that the first argument begins with. -/
theorem map_dropWhile_splitOn_blank (cs : List Char) :
    ((' ' :: cs).splitOn ',').map (·.dropWhile (· == ' ')) =
      (cs.splitOn ',').map (·.dropWhile (· == ' ')) := by
  rw [List.splitOn, List.splitOnP_cons_eq_if_modifyHead, if_neg (by decide), List.splitOn]
  cases cs.splitOnP (· == ',') with
  | nil => rfl
  | cons first others => rfl

/-- Arguments are read back that are written with a comma and a blank between them. -/
theorem map_dropWhile_splitOn {arguments : List (List Char)} (hne : arguments ≠ [])
    (h : ∀ argument ∈ arguments, IsClosedArgument argument) :
    ((", ".toList.intercalate arguments).splitOn ',').map (·.dropWhile (· == ' ')) =
      arguments := by
  induction arguments with
  | nil => exact absurd rfl hne
  | cons argument rest ih =>
    obtain ⟨⟨hcomma, -, hblank⟩, hrest⟩ := List.forall_mem_cons.mp h
    have hplain : ∀ c ∈ argument, (c == ',') = false := by
      intro c hc
      rw [beq_eq_false_iff_ne]
      rintro rfl
      exact hcomma hc
    have hfirst : argument.dropWhile (· == ' ') = argument := by
      cases argument with
      | nil => rfl
      | cons c cs => exact List.dropWhile_cons_of_neg (by simpa using hblank)
    cases rest with
    | nil =>
      rw [List.intercalate_singleton, List.splitOn, List.splitOnP_eq_singleton hplain,
        List.map_singleton, hfirst]
    | cons next rest =>
      have hnext := ih (by simp) hrest
      rw [List.intercalate_cons_cons, List.append_assoc]
      show ((argument ++ ',' :: ' ' :: _).splitOn ',').map _ = _
      rw [List.splitOn, List.splitOnP_append_cons argument _ rfl,
        List.splitOnP_eq_singleton hplain, List.singleton_append, List.map_cons, hfirst]
      exact congrArg _ ((map_dropWhile_splitOn_blank _).trans hnext)

theorem mem_or_mem_of_mem_intercalate {α : Type} {sep : List α} {pieces : List (List α)} {a : α}
    (h : a ∈ sep.intercalate pieces) : a ∈ sep ∨ ∃ piece ∈ pieces, a ∈ piece := by
  induction pieces with
  | nil => cases h
  | cons piece rest ih =>
    cases rest with
    | nil =>
      rw [List.intercalate_singleton] at h
      exact .inr ⟨piece, List.mem_singleton_self piece, h⟩
    | cons next rest =>
      rw [List.intercalate_cons_cons, List.append_assoc, List.mem_append, List.mem_append] at h
      rcases h with h | h | h
      · exact .inr ⟨piece, List.mem_cons_self, h⟩
      · exact .inl h
      · exact (ih h).imp_right fun ⟨other, hother, hmem⟩ =>
          ⟨other, List.mem_cons_of_mem _ hother, hmem⟩

theorem argumentsOf_text (hname : ∀ c ∈ field.name.toList, isHeadCharacter c)
    (h : ∀ argument ∈ field.arguments, IsReadableArgument argument) :
    argumentsOf field.text = field.arguments.map fun (argument, type) =>
      (argument, type.text) := by
  have hdrop : ∀ {mark rest}, isHeadCharacter mark = false →
      (field.name.toList ++ mark :: rest).dropWhile isHeadCharacter = mark :: rest := by
    intro mark rest hmark
    rw [List.dropWhile_append_of_pos hname, List.dropWhile_cons_of_neg (by simp [hmark])]
  by_cases harguments : field.arguments = []
  · obtain ⟨rest, hrest⟩ := FieldLine.exists_colon harguments
    rw [argumentsOf, hrest, hdrop rfl, harguments]
    rfl
  · obtain ⟨rest, hrest⟩ := FieldLine.exists_brackets harguments
    have hclosed : ')' ∉ ", ".toList.intercalate (field.arguments.map fun (argument, type) =>
        (argument ++ ": " ++ type.text).toList) := by
      intro hc
      rcases mem_or_mem_of_mem_intercalate hc with hc | ⟨piece, hpiece, hmem⟩
      · revert hc
        decide
      · obtain ⟨argument, hargument, rfl⟩ := List.mem_map.mp hpiece
        exact (h argument hargument).closed.2.1 hmem
    have hpieces := map_dropWhile_splitOn (by simpa using harguments)
      (List.forall_mem_map.mpr fun argument hargument => (h argument hargument).closed)
    have hread := congrArg (List.map readArgument) hpieces
    rw [List.map_map, List.map_map] at hread
    rw [argumentsOf, hrest, hdrop rfl]
    show ((List.takeWhile _ _).splitOn ',').map _ = _
    rw [(takeWhile_until hclosed).1]
    refine hread.trans (List.map_congr_left fun argument hargument => ?_)
    exact readArgument_text (h argument hargument).colon argument.2

example : headOf "people(limit: Int, filter: PersonFilter): [Person!]!" = "people" ∧
    argumentsOf "people(limit: Int, filter: PersonFilter): [Person!]!" =
      [("limit", "Int"), ("filter", "PersonFilter")] := by
  decide +kernel

/-- Arguments are read back whose types are names. -/
theorem isReadableArgument_named {name type : String}
    (hname : ∀ c ∈ name.toList, Name.isNamePart c)
    (htype : ∀ c ∈ type.toList, Name.isNamePart c) (required : Bool) :
    IsReadableArgument (name, .named type required) := by
  have hmark : ∀ c ∈ (TypeRef.mark required).toList, c = '!' := by
    cases required <;> decide
  have hchars : ∀ c ∈ (name ++ ": " ++ (TypeRef.named type required).text).toList,
      c ≠ ',' ∧ c ≠ ')' := by
    have hpart : ∀ c, Name.isNamePart c → c ≠ ',' ∧ c ≠ ')' := by
      intro c hc
      constructor
      · rintro rfl
        cases hc
      · rintro rfl
        cases hc
    simp only [TypeRef.text, String.toList_append, List.forall_mem_append]
    refine ⟨⟨fun c hc => hpart c (hname c hc), by decide⟩, fun c hc => hpart c (htype c hc), ?_⟩
    intro c hc
    rw [hmark c hc]
    decide
  refine ⟨fun h => (by cases hname _ h), fun h => (hchars _ h).1 rfl,
    fun h => (hchars _ h).2 rfl, ?_⟩
  rw [String.append_assoc, String.toList_append]
  cases hlist : name.toList with
  | nil => simp [String.toList_append]
  | cons c cs =>
    intro h
    rw [List.cons_append, List.head?_cons, Option.some.injEq] at h
    have hblank := hname c (hlist ▸ List.mem_cons_self)
    rw [h] at hblank
    cases hblank

end Fields

/-! ### Blocks -/

section Blocks

variable {block : Block}

/-- The names of the fields of a type or an input. -/
def Block.fieldNames (block : Block) : List String := block.fields.map FieldLine.name

/-- A block whose name is one word and whose fields take no arguments. -/
structure Block.IsBare (block : Block) : Prop where
  /-- There is no blank in its name. -/
  name : ' ' ∉ block.name.toList
  /-- No field takes arguments. -/
  arguments : ∀ field ∈ block.fields, field.arguments = []

/-- **The text of a block declares its name and its fields.** -/
theorem declares_text (h : block.IsBare) :
    Declares block.text block.kind.keyword block.name block.fieldNames := by
  obtain ⟨rest, htext⟩ : ∃ rest, block.text.toList =
      block.kind.keyword.toList ++ ' ' :: (block.name.toList ++ ' ' :: rest) := by
    refine ⟨("\x7b\n" ++ String.join ((block.fields.map FieldLine.text).map
      fun line => "  " ++ line ++ "\n") ++ "\x7d").toList, ?_⟩
    simp only [Block.text, renderBlock, String.toList_append, List.append_assoc]
    rfl
  have hkeyword : ' ' ∉ block.kind.keyword.toList := by
    cases block.kind <;> decide
  refine ⟨?_, ?_, block.fields.map fun field => (field.name, field.rest), ?_, ?_⟩
  · rw [keywordOf, htext, (takeWhile_until hkeyword).1, String.ofList_toList]
  · rw [declaredName, htext, (takeWhile_until hkeyword).2]
    show String.ofList ((block.name.toList ++ ' ' :: rest).takeWhile _) = _
    rw [(takeWhile_until h.name).1, String.ofList_toList]
  · rw [List.map_map]
    rfl
  · have hlines : (block.fields.map FieldLine.text).map (fun line => "  " ++ line ++ "\n") =
        (block.fields.map fun field => (field.name, field.rest)).map fun (field, type) =>
          "  " ++ field ++ ": " ++ type ++ "\n" := by
      rw [List.map_map, List.map_map]
      refine List.map_congr_left fun field hfield => ?_
      show "  " ++ field.text ++ "\n" = "  " ++ field.name ++ ": " ++ field.rest ++ "\n"
      rw [FieldLine.text_of_arguments_nil (h.arguments field hfield)]
      simp only [String.append_assoc]
    rw [Block.text, renderBlock, hlines]

end Blocks

end Sdl

namespace Generate

open Sdl

/-- The sections of a fragment declare the names and the arguments of the blocks and the root
fields that they are written from. -/
structure Composition.HasTexts (c : Composition) : Prop where
  /-- The definitions, one for each block, in order. -/
  definitions : List.Forall₂ (fun definition block =>
    Declares definition block.kind.keyword block.name block.fieldNames)
    c.fragment.definitions c.blocks
  /-- The lines of the queries. -/
  queries : List.Forall₂ DeclaresField c.fragment.queryFields c.queries
  /-- The lines of the mutations. -/
  mutations : List.Forall₂ DeclaresField c.fragment.mutationFields c.mutations

namespace Composition.HasTexts

variable {c : Composition} (h : c.HasTexts)
include h

/-- Every block is declared by a definition. -/
theorem exists_declares {block : Block} (hblock : block ∈ c.blocks) :
    ∃ definition ∈ c.fragment.definitions,
      Declares definition block.kind.keyword block.name block.fieldNames :=
  exists_mem_of_forall₂ h.definitions.flip hblock

/-- Every definition declares a block. -/
theorem exists_block {definition : String} (hdefinition : definition ∈ c.fragment.definitions) :
    ∃ block ∈ c.blocks, Declares definition block.kind.keyword block.name block.fieldNames :=
  exists_mem_of_forall₂ h.definitions hdefinition

theorem map_headOf_queryFields :
    c.fragment.queryFields.map headOf = c.queries.map FieldLine.name :=
  map_eq_of_forall₂ (h.queries.flip.imp fun _ _ hfield => hfield.name)

theorem map_headOf_mutationFields :
    c.fragment.mutationFields.map headOf = c.mutations.map FieldLine.name :=
  map_eq_of_forall₂ (h.mutations.flip.imp fun _ _ hfield => hfield.name)

end Composition.HasTexts

/-! ### The names of queries -/

theorem Naming.collectionQuery_isHeadCharacter (model : String) :
    ∀ c ∈ (Naming.collectionQuery model).toList, isHeadCharacter c :=
  Name.camel_isHeadCharacter _

theorem Naming.metaQuery_isHeadCharacter (model : String) :
    ∀ c ∈ (Naming.metaQuery model).toList, isHeadCharacter c := by
  simp only [Naming.metaQuery, String.toList_append, List.forall_mem_append]
  exact ⟨Naming.collectionQuery_isHeadCharacter model, by decide⟩

theorem Naming.singleQuery_isHeadCharacter (model : String) :
    ∀ c ∈ (Naming.singleQuery model).toList, isHeadCharacter c :=
  Name.camel_isHeadCharacter _

theorem Naming.lookupQuery_isHeadCharacter (model property : String) :
    ∀ c ∈ (Naming.lookupQuery model property).toList, isHeadCharacter c := by
  simp only [Naming.lookupQuery, String.toList_append, List.forall_mem_append]
  exact ⟨⟨Naming.singleQuery_isHeadCharacter model, by decide⟩,
    Name.pascal_isHeadCharacter property⟩

namespace Generator

variable {g : Generator} {model : Model}

theorem lookupNames_isHeadCharacter (g : Generator) (model : Model) :
    ∀ name ∈ g.lookupNames model, ∀ c ∈ name.toList, isHeadCharacter c := by
  unfold lookupNames
  split
  · simp
  · split
    · simpa using Naming.singleQuery_isHeadCharacter model.name
    · intro name hname
      obtain ⟨⟨property, kind⟩, -, rfl⟩ := List.mem_map.mp hname
      exact Naming.lookupQuery_isHeadCharacter model.name property.name

theorem queryNames_isHeadCharacter (g : Generator) (model : Model) :
    ∀ name ∈ g.queryNames model, ∀ c ∈ name.toList, isHeadCharacter c := by
  simp only [queryNames, List.mem_cons, forall_eq_or_imp]
  exact ⟨Naming.collectionQuery_isHeadCharacter _, Naming.metaQuery_isHeadCharacter _,
    lookupNames_isHeadCharacter g model⟩

/-! ### The blocks of a model -/

theorem isBare_of_isPlain {block : Block} (h : block.IsPlain)
    (harguments : ∀ field ∈ block.fields, field.arguments = []) : block.IsBare where
  name hblank := by cases Name.isNamePart_of_mem h.name _ hblank
  arguments := harguments

theorem isBare_objectType (hw : model.WellFormed) {object : Block}
    (h : g.objectType model = .ok object) : object.IsBare := by
  obtain ⟨-, hname, fields, hproperties, hfields⟩ := objectType_eq_ok h
  constructor
  · rw [hname]
    intro hblank
    cases Name.isNamePart_of_mem hw.name _ hblank
  · rw [hfields, List.forall_mem_append]
    refine ⟨forall_of_forall₂ hproperties fun _ _ field hfield => hfield.arguments, ?_⟩
    intro field hfield
    obtain ⟨relation, -, rfl⟩ := List.mem_map.mp hfield
    rfl

theorem argsType_isNamePart {operation : String} (h : Name.isIdentifier operation) :
    ∀ c ∈ (Naming.argsType operation).toList, Name.isNamePart c := by
  simp only [Naming.argsType, String.toList_append, List.forall_mem_append]
  exact ⟨fun c hc => (Name.pascal_isAlphanumeric (Name.isNamePart_of_mem h) c hc).1, by decide⟩

theorem isBare_operationInput (hw : model.WellFormed) {operation : Operation}
    (hoperation : operation ∈ g.operations model) {input : Block}
    (h : g.operationInput model operation = .ok (some input)) : input.IsBare := by
  obtain ⟨-, hname, -, hfields⟩ := operationInput_eq_some h
  constructor
  · rw [hname]
    intro hblank
    have hid := hw.operations operation (List.mem_filter.mp hoperation).1
    cases argsType_isNamePart hid _ hblank
  · exact forall_of_forall₂ hfields fun _ _ field hfield => hfield.arguments

theorem isBare_blocks {c : Composition} (h : IsComposition g model c) :
    ∀ block ∈ c.blocks, block.IsBare := by
  have hw := h.wellFormed
  refine h.forall_blocks ?_ ?_ ?_ ?_ ?_
  · exact fun object hobject => isBare_objectType hw hobject
  · exact fun operation hoperation block hinput => isBare_operationInput hw hoperation hinput
  · exact isBare_of_isPlain (isPlain_countType hw) (by simp [countType])
  · intro block hfilter
    have hplain := isPlain_filterInput hw hfilter
    exact isBare_of_isPlain hplain (hplain.arguments (filterInput_eq_some hfilter).1)
  · intro block hfilter
    have hplain := isPlain_uniqueFilterInput hw hfilter
    exact isBare_of_isPlain hplain (hplain.arguments (uniqueFilterInput_eq_some hfilter).1)

/-! ### The root fields of a model -/

/-- A field with a name that its line begins with, and arguments that are told apart. -/
structure IsReadable (field : FieldLine) : Prop where
  /-- No character of its name ends the name. -/
  name : ∀ c ∈ field.name.toList, isHeadCharacter c
  /-- Every argument is told from the others, and its name from its type. -/
  arguments : ∀ argument ∈ field.arguments, IsReadableArgument argument

theorem IsReadable.declaresField {field : FieldLine} (h : IsReadable field) :
    DeclaresField field.text field where
  name := headOf_text h.name
  arguments := argumentsOf_text h.name h.arguments

theorem isNamePart_append {name ending : String} (h : Name.isIdentifier name)
    (hending : ∀ c ∈ ending.toList, Name.isNamePart c) :
    ∀ c ∈ (name ++ ending).toList, Name.isNamePart c :=
  Name.isNamePart_of_mem (isIdentifier_append h hending)

/-- A lookup takes a filter for a single record, or the value of a property. -/
theorem isReadableArgument_lookup (hw : model.WellFormed) :
    ∀ field ∈ g.lookupFields model, ∀ argument ∈ field.arguments,
      IsReadableArgument argument := by
  intro field hfield
  unfold lookupFields at hfield
  split at hfield
  · cases hfield
  · split at hfield
    · rw [List.mem_singleton] at hfield
      subst hfield
      rw [List.forall_mem_singleton]
      exact isReadableArgument_named (by decide) (isNamePart_append hw.name (by decide)) false
    · obtain ⟨⟨property, kind⟩, hidentifier, rfl⟩ := List.mem_map.mp hfield
      rw [List.forall_mem_singleton]
      have hproperty := hw.properties property
        (List.mem_filter.mp (property_of_mem_identifiers hidentifier)).1
      apply isReadableArgument_named
      · intro c hc
        exact (Name.camel_isAlphanumeric (Name.isNamePart_of_mem hproperty) c hc).1
      · exact Name.isNamePart_of_mem (kind.isIdentifier_sdlName g.config.idScalar)

theorem isReadable_queryFields (hw : model.WellFormed) (withFilter : Bool) :
    ∀ field ∈ g.queryFields model withFilter, IsReadable field := by
  have hnames : ∀ field ∈ g.queryFields model withFilter,
      ∀ c ∈ field.name.toList, isHeadCharacter c := by
    intro field hfield
    apply queryNames_isHeadCharacter g model
    rw [← queryFields_name withFilter]
    exact List.mem_map_of_mem hfield
  have hint : ∀ argument : String, (∀ c ∈ argument.toList, Name.isNamePart c) →
      IsReadableArgument (argument, .named "Int" false) :=
    fun argument h => isReadableArgument_named h (by decide) false
  have hfilter : ∀ argument ∈ filterArgument model withFilter, IsReadableArgument argument := by
    cases withFilter with
    | false => simp [filterArgument]
    | true =>
      simp only [filterArgument, if_true, List.forall_mem_singleton]
      exact isReadableArgument_named (by decide) (isNamePart_append hw.name (by decide)) false
  rw [queryFields, List.forall_mem_cons, List.forall_mem_cons] at hnames ⊢
  refine ⟨⟨hnames.1, ?_⟩, ⟨hnames.2.1, hfilter⟩, ?_⟩
  · simp only [List.forall_mem_append, List.forall_mem_cons]
    exact ⟨⟨hint "offset" (by decide), hint "limit" (by decide), by simp⟩, hfilter⟩
  · intro field hfield
    exact ⟨hnames.2.2 field hfield, isReadableArgument_lookup hw field hfield⟩

theorem isReadable_mutation (hw : model.WellFormed) {operation : Operation}
    (hoperation : operation ∈ g.operations model) {field : FieldLine}
    (h : IsMutation g operation field) : IsReadable field := by
  have hid := hw.operations operation (List.mem_filter.mp hoperation).1
  constructor
  · rw [h.name]
    exact isHeadCharacter_of_isIdentifier hid
  · rw [h.arguments]
    split
    · simp
    · simp only [List.forall_mem_singleton]
      exact isReadableArgument_named (by decide) (argsType_isNamePart hid) true

/-- **The texts of a composition.**  The fragment of a model that is composed declares the
names and the fields of all blocks, and the names and the arguments of all root fields. -/
theorem hasTexts_of_compose {c : Composition} (h : g.compose model = .ok c) : c.HasTexts := by
  have hparts := isComposition_of_compose h
  have hw := hparts.wellFormed
  have hqueries : ∀ field ∈ c.queries, IsReadable field := by
    rw [hparts.queries]
    exact isReadable_queryFields hw c.filter.isSome
  have hmutations : ∀ field ∈ c.mutations, IsReadable field :=
    forall_of_forall₂ hparts.mutations
      fun operation hoperation field hfield => isReadable_mutation hw hoperation hfield
  refine ⟨?_, ?_, ?_⟩
  · refine List.forall₂_map_left_iff.mpr (List.forall₂_same.mpr fun block hblock => ?_)
    exact declares_text (isBare_blocks hparts block hblock)
  · refine List.forall₂_map_left_iff.mpr (List.forall₂_same.mpr fun field hfield => ?_)
    exact (hqueries field hfield).declaresField
  · refine List.forall₂_map_left_iff.mpr (List.forall₂_same.mpr fun field hfield => ?_)
    exact (hmutations field hfield).declaresField

end Generator
end Generate
end EntitySdl
