import EntitySdl.Proofs.Trimming
import EntitySdl.Sdl.Fragment
import Mathlib.Data.List.Induction

/-! # What merging keeps

A merged document depends on the sections of its fragments alone, one behind the other:
it makes no difference which of them stood in one fragment.  Of its definitions those that
declare scalars come first, as far as they are new.  A declaration is new unless a built-in
one or one that stands before it, kept or not, has the same text up to blanks; nothing else
is left out.
-/
namespace EntitySdl
namespace Sdl

open Text

/-- A definition begins, behind blanks, with the word for scalars and a space. -/
def DeclaresScalar (definition : String) : Prop :=
  ∃ blanks rest, IsBlankText blanks ∧ definition.toList = blanks ++ ("scalar ".toList ++ rest)

theorem isScalarDeclaration_iff {definition : String} :
    isScalarDeclaration definition ↔ DeclaresScalar definition := by
  rw [isScalarDeclaration, Option.isSome_iff_exists]
  constructor
  · rintro ⟨rest, hrest⟩
    obtain ⟨blanks, hsplit, hblanks, -⟩ := exists_trimStart definition.toList
    rw [eq_append_of_dropStart? hrest] at hsplit
    exact ⟨blanks, rest, hblanks, hsplit⟩
  · rintro ⟨blanks, rest, hblanks, hsplit⟩
    refine ⟨rest, ?_⟩
    rw [hsplit, trimStart, List.dropWhile_append_of_pos hblanks]
    exact dropStart?_append _ rest

/-- Whether a definition declares a scalar is seen where it begins. -/
instance (definition : String) : Decidable (DeclaresScalar definition) :=
  decidable_of_iff _ isScalarDeclaration_iff

theorem filter_isScalarDeclaration (definitions : List String) :
    definitions.filter isScalarDeclaration = definitions.filter (DeclaresScalar ·) :=
  List.filter_congr fun definition _ => by
    rw [Bool.eq_iff_iff, isScalarDeclaration_iff, decide_eq_true_iff]

theorem filter_not_isScalarDeclaration (definitions : List String) :
    definitions.filter (!isScalarDeclaration ·) = definitions.filter (¬ DeclaresScalar ·) :=
  List.filter_congr fun definition _ => by
    rw [Bool.eq_iff_iff, Bool.not_eq_true', decide_eq_true_iff, ← isScalarDeclaration_iff,
      Bool.not_eq_true]

/-! ### Texts up to blanks -/

/-- The words of a text, which stand between its blanks. -/
def wordsIn (text : String) : List (List Char) := (text.toList.splitOnP isBlank).filter (· ≠ [])

theorem splitAt_eq_splitOnP (separates : Char → Bool) (cs : List Char) :
    splitAt separates cs = cs.splitOnP separates := by
  induction cs with
  | nil => rfl
  | cons c cs ih =>
    rw [splitAt, List.splitOnP_cons_eq_if_modifyHead, ih]
    split
    · rfl
    · cases hsplit : cs.splitOnP separates with
      | nil => exact absurd (ih.trans hsplit) (splitAt_ne_nil separates cs)
      | cons piece pieces => rfl

theorem words_toList (text : String) : words text.toList = wordsIn text := by
  rw [words, wordsIn, splitAt_eq_splitOnP]
  refine List.filter_congr fun word _ => ?_
  cases word <;> rfl

/-- Words are found again that are written with a space between them. -/
theorem words_intercalate {ws : List (List Char)}
    (h : ∀ word ∈ ws, word ≠ [] ∧ ∀ c ∈ word, isBlank c = false) :
    words ([' '].intercalate ws) = ws := by
  have hone : ∀ word : List Char, word ≠ [] → (∀ c ∈ word, isBlank c = false) →
      (splitAt isBlank word).filter (!·.isEmpty) = [word] := by
    intro word hne hplain
    rw [splitAt_eq_singleton hplain, List.filter_cons_of_pos (by simpa using hne),
      List.filter_nil]
  induction ws with
  | nil => rfl
  | cons word rest ih =>
    obtain ⟨⟨hne, hplain⟩, hrest⟩ := List.forall_mem_cons.mp h
    cases rest with
    | nil =>
      rw [List.intercalate_singleton]
      exact hone word hne hplain
    | cons next rest =>
      rw [List.intercalate_cons_cons, List.append_assoc, List.singleton_append, words,
        splitAt_append_cons (by decide), List.filter_append, hone word hne hplain]
      exact congrArg _ (ih hrest)

/-- Texts are made the same by making their blanks single spaces exactly when they have the
same words. -/
theorem singleSpaced_eq_iff {left right : String} :
    singleSpaced left = singleSpaced right ↔ wordsIn left = wordsIn right := by
  have hlist : ∀ text, (singleSpaced text).toList = [' '].intercalate (words text.toList) := by
    intro text
    rw [singleSpaced, String.toList_intercalate, List.map_map]
    simp only [Function.comp_def, String.toList_ofList, List.map_id']
    rfl
  have hwords : ∀ text, words (singleSpaced text).toList = wordsIn text := by
    intro text
    rw [hlist, words_intercalate, words_toList]
    intro word hword
    obtain ⟨hmem, hne⟩ := List.mem_filter.mp hword
    exact ⟨by simpa using hne, splitAt_separates hmem⟩
  constructor
  · intro h
    rw [← hwords, h, hwords]
  · intro h
    rw [← String.toList_inj, hlist, hlist, words_toList, words_toList, h]

/-- Some declaration has the words of a definition. -/
def IsDeclared (declared : List String) (definition : String) : Prop :=
  ∃ other ∈ declared, wordsIn other = wordsIn definition

/-- The words are compared with those of each declaration. -/
instance (declared : List String) (definition : String) :
    Decidable (IsDeclared declared definition) :=
  inferInstanceAs (Decidable (∃ other ∈ declared, _))

section Scalars

variable {declared further definitions : List String} {scalar : String}

theorem isDeclared_append_iff : IsDeclared (declared ++ further) scalar ↔
    IsDeclared declared scalar ∨ IsDeclared further scalar := by
  simp only [IsDeclared, List.mem_append, or_and_right, exists_or]

theorem addScalars_cons (declared further : List String) (scalar : String) :
    addScalars declared (scalar :: further) =
      addScalars (declared ++ if IsDeclared declared scalar then [] else [scalar]) further := by
  have hany : (declared.any fun other => singleSpaced other == singleSpaced scalar) = true ↔
      IsDeclared declared scalar := by
    simp only [List.any_eq_true, beq_iff_eq, singleSpaced_eq_iff, IsDeclared]
  by_cases h : IsDeclared declared scalar
  · rw [addScalars, if_pos (hany.mpr h), if_pos h, List.append_nil]
  · rw [addScalars, if_neg (mt hany.mp h), if_neg h]

theorem addScalars_append (declared further more : List String) :
    addScalars declared (further ++ more) = addScalars (addScalars declared further) more := by
  induction further generalizing declared with
  | nil => rfl
  | cons first rest ih => rw [List.cons_append, addScalars_cons, addScalars_cons, ih]

/-- One more declaration is added if it is new. -/
theorem addScalars_concat (declared further : List String) (scalar : String) :
    addScalars declared (further ++ [scalar]) = addScalars declared further ++
      if IsDeclared (addScalars declared further) scalar then [] else [scalar] := by
  rw [addScalars_append, addScalars_cons, addScalars]

/-- Nothing is added if all declarations repeat given ones. -/
theorem addScalars_eq_self (h : ∀ scalar ∈ further, IsDeclared declared scalar) :
    addScalars declared further = declared := by
  induction further with
  | nil => rfl
  | cons first rest ih =>
    obtain ⟨hfirst, hrest⟩ := List.forall_mem_cons.mp h
    rw [addScalars_cons, if_pos hfirst, List.append_nil, ih hrest]

/-- Declarations that have been added are the ones that are added again. -/
theorem addScalars_addScalars (declared further : List String) :
    addScalars declared (addScalars declared further) = addScalars declared further := by
  induction further using List.reverseRecOn with
  | nil => exact addScalars_eq_self fun scalar hscalar => ⟨scalar, hscalar, rfl⟩
  | append_singleton further last ih =>
    rw [addScalars_concat, addScalars_append, ih]
    split
    next => rw [addScalars, List.append_nil]
    next hlast => rw [addScalars_cons, if_neg hlast, addScalars]

/-- What is left out has the words of one that was kept, so that the kept declarations
have them all. -/
theorem isDeclared_addScalars_iff :
    IsDeclared (addScalars declared further) scalar ↔ IsDeclared (declared ++ further) scalar := by
  induction further using List.reverseRecOn with
  | nil => rw [addScalars, List.append_nil]
  | append_singleton further last ih =>
    rw [addScalars_concat, isDeclared_append_iff, ih, ← List.append_assoc,
      @isDeclared_append_iff (declared ++ further)]
    refine or_congr_right' fun hnot => ?_
    split
    next hlast =>
      -- the last one repeats a text, which is not the one asked for
      refine iff_of_false (by simp [IsDeclared]) ?_
      rintro ⟨other, hother, htext⟩
      rw [List.mem_singleton] at hother
      subst hother
      obtain ⟨kept, hkept, hsame⟩ := hlast
      exact hnot (ih.mp ⟨kept, hkept, hsame.trans htext⟩)
    next => rfl

/-- A declaration of a scalar whose words are those of no earlier declaration. -/
def IsNew (declared before : List String) (definition : String) : Prop :=
  DeclaresScalar definition ∧
    ¬ IsDeclared (declared ++ before.filter (DeclaresScalar ·)) definition

/-- Both conditions are decidable. -/
instance (declared before : List String) (definition : String) :
    Decidable (IsNew declared before definition) :=
  inferInstanceAs (Decidable (_ ∧ _))

/-- The definitions that are new where they stand. -/
def newScalars (declared definitions : List String) : List String :=
  (definitions.zipIdx.filter fun entry =>
    IsNew declared (definitions.take entry.2) entry.1).map Prod.fst

theorem newScalars_concat (declared definitions : List String) (definition : String) :
    newScalars declared (definitions ++ [definition]) = newScalars declared definitions ++
      if IsNew declared definitions definition then [definition] else [] := by
  rw [newScalars, List.zipIdx_append, List.filter_append, List.map_append]
  congr 1
  · rw [newScalars]
    congr 1
    refine List.filter_congr fun entry hentry => ?_
    have hindex : entry.2 < definitions.length := by
      have := List.snd_lt_of_mem_zipIdx hentry
      omega
    rw [List.take_append_of_le_length hindex.le]
  · rw [List.zipIdx_singleton, List.filter_cons, Nat.zero_add, List.take_left', List.filter_nil]
    · simp only [decide_eq_true_eq]
      split <;> rfl
    · rfl

/-- The declarations of a merged document are the given ones and the new ones behind. -/
theorem addScalars_filter (declared definitions : List String) :
    addScalars declared (definitions.filter isScalarDeclaration) =
      declared ++ newScalars declared definitions := by
  rw [filter_isScalarDeclaration]
  induction definitions using List.reverseRecOn with
  | nil => rw [List.filter_nil, addScalars, newScalars, List.zipIdx_nil, List.filter_nil,
      List.map_nil, List.append_nil]
  | append_singleton definitions last ih =>
    rw [List.filter_append, newScalars_concat, ← List.append_assoc, ← ih]
    by_cases hlast : DeclaresScalar last
    · rw [List.filter_cons_of_pos (by simpa using hlast), List.filter_nil, addScalars_concat]
      simp only [isDeclared_addScalars_iff, IsNew, hlast, true_and, ite_not]
    · rw [List.filter_cons_of_neg (by simpa using hlast), List.filter_nil, List.append_nil,
        if_neg fun hnew => hlast hnew.1, List.append_nil]

end Scalars

section Sections

variable (idScalar : IdScalar)

/-- The declarations that stand in front: dates, and identifiers if they have a scalar of
their own. -/
def frontScalars : List String :=
  "scalar Date" :: if idScalar = .uuid then ["scalar UUID"] else []

/-- A root type with a line for each field. -/
def rootText (name : String) (lines : List String) : String :=
  "type " ++ name ++ " \x7b\n" ++
    String.join (lines.map fun line => "  " ++ line ++ "\n") ++ "\x7d"

/-- The document with these definitions and these lines of the root types.  Its blocks stand
apart by an empty line: the scalars, each text once, then a root type with all its lines in
order, if it has any, then the other definitions in order. -/
def documentOf (definitions queries mutations : List String) : String :=
  "\n\n".intercalate
    ("\n".intercalate
        (frontScalars idScalar ++ newScalars (frontScalars idScalar) definitions) ::
      ((if queries = [] then [] else [rootText "Query" queries]) ++
        (if mutations = [] then [] else [rootText "Mutation" mutations]) ++
        definitions.filter (¬ DeclaresScalar ·))) ++ "\n"

theorem builtinScalars_eq_frontScalars : builtinScalars idScalar = frontScalars idScalar := by
  cases idScalar <;> decide

theorem rootBlock_eq (name : String) (lines : List String) :
    rootBlock name lines = if lines = [] then [] else [rootText name lines] := by
  simp only [rootBlock, List.isEmpty_iff]
  rfl

theorem merge_eq_documentOf (fragments : List Fragment) :
    merge fragments idScalar = documentOf idScalar (fragments.flatMap Fragment.definitions)
      (fragments.flatMap Fragment.queryFields) (fragments.flatMap Fragment.mutationFields) := by
  rw [merge, addScalars_filter, filter_not_isScalarDeclaration, rootBlock_eq, rootBlock_eq,
    joinBlocks, if_neg (by simp), builtinScalars_eq_frontScalars, documentOf]
  simp only [List.cons_append, List.nil_append]

/-- One fragment with the sections of several. -/
def gather (name : String) (fragments : List Fragment) : Fragment where
  name := name
  definitions := fragments.flatMap Fragment.definitions
  queryFields := fragments.flatMap Fragment.queryFields
  mutationFields := fragments.flatMap Fragment.mutationFields

/-- Fragments may be put into groups, and the groups merged. -/
theorem merge_groups (name : List Fragment → String) (groups : List (List Fragment)) :
    merge (groups.map fun group => gather (name group) group) idScalar =
      merge groups.flatten idScalar := by
  simp only [merge_eq_documentOf, List.flatMap_map, gather, ← List.flatMap_id, List.flatMap_assoc,
    id_eq]

/-- A merged document is that of the sections of its fragments, one behind the other, so
that one fragment with all of them gives the same. -/
theorem merge_sections (name : String) (fragments : List Fragment) :
    merge fragments idScalar = merge [gather name fragments] idScalar ∧
      merge fragments idScalar =
        documentOf idScalar (fragments.flatMap Fragment.definitions)
          (fragments.flatMap Fragment.queryFields) (fragments.flatMap Fragment.mutationFields) := by
  refine ⟨?_, merge_eq_documentOf idScalar fragments⟩
  have := merge_groups idScalar (fun _ => name) [fragments]
  rw [List.flatten_singleton] at this
  exact this.symm

/-- A repeated declaration is left out wherever its blanks are, and other definitions stay. -/
example :
    newScalars (frontScalars .uuid)
      ["scalar  UUID", "scalar Time", "type Book", "scalar Time ", "scalar Time @local"] =
        ["scalar Time", "scalar Time @local"] := by
  decide +kernel

end Sections

end Sdl
end EntitySdl
