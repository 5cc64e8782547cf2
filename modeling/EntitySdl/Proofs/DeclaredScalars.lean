import EntitySdl.Proofs.KeptDefinitions
import EntitySdl.Proofs.ScalarDeclarations

/-! # Scalars that a merged document declares

A merged document is read piece by piece, and each piece declares the scalar that it
declares by itself.  So a scalar is declared twice when two definitions of it are kept.
Merging leaves out a definition if it is recognised, by its first word and the space
behind, and has the text of one that was recognised before: the same scalar under a
description, behind a tab or with other directives is declared once more.
-/
namespace EntitySdl
namespace Sdl

open Name Text Grammar Cursor Sdl.Tree

/-- The scalar that a definition declares, unless it extends one. -/
def declaredScalar? (definition : Tree Rule) : Option (List Char) := do
  let scalar ← (← definition.child? .typeDefinition).child? .scalarType
  if (scalar.child? .extend).isSome then none
  else (scalar.child? .name).map Tree.text

/-- The scalar that a text declares, read by itself. -/
def scalarOf? (text : String) : Option (List Char) :=
  match parseDocument text.toList with
  | .ok [definition] => declaredScalar? definition
  | _ => none

theorem scalarOf?_eq {text : List Char} {t : Tree Rule} (h : parseDocument text = .ok [t]) :
    scalarOf? (String.ofList text) = declaredScalar? t := by
  unfold scalarOf?
  simp only [String.toList_ofList, h]

theorem declaredScalar?_outline (t : Tree Rule) :
    declaredScalar? t.outline = declaredScalar? t := by
  unfold declaredScalar?
  rw [child?_outline]
  cases t.child? .typeDefinition with
  | none => rfl
  | some type =>
    simp only [Option.map_some, Option.bind_eq_bind, Option.bind_some, child?_outline]
    cases type.child? .scalarType with
    | none => rfl
    | some scalar =>
      simp only [Option.map_some, Option.bind_some, child?_outline, Option.isSome_map]
      cases hname : scalar.child? .name with
      | none => rfl
      | some name => simp only [Option.map_some, text_outline_of_name hname]

theorem declaredScalar?_congr {t u : Tree Rule} (h : t.outline = u.outline) :
    declaredScalar? t = declaredScalar? u := by
  rw [← declaredScalar?_outline, h, declaredScalar?_outline]

theorem declaredScalar?_of_type {name : List Char} {offset : Nat} {fields : List (Tree Rule)}
    {t : Tree Rule} (h : IsBlockTree .type name offset fields t) : declaredScalar? t = none := by
  obtain ⟨_, _, _, _, _, _, rfl⟩ := h
  rfl

namespace Piece

/-- The scalar that a piece declares. -/
def scalar? : Piece → Option (List Char)
  | kept text => scalarOf? (String.ofList text)
  | root _ _ => none

/-- Wherever a piece stands, it is read as a definition, and of the scalar that it declares
by itself. -/
def ReadsScalar (piece : Piece) : Prop :=
  ∀ offset behind, ∃ d t, Reads (.one (.rule .definition))
      ⟨offset, piece.text ++ '\n' :: behind⟩ d [t] ∧
    d.skip .spaced = Cursor.skip ⟨offset + piece.text.length, '\n' :: behind⟩ .spaced ∧
      checkDefinition t = .ok () ∧ declaredScalar? t = piece.scalar?

theorem readsScalar_root {lines : List (List Char)} (h : AreFields lines) (kind : RootKind) :
    (Piece.root kind lines).ReadsScalar := by
  intro offset behind
  obtain ⟨_, ts, t, -, hnumbers, htree, hreads⟩ := @reads_block .type _ _
    ('\n' :: behind) kind.isIdentifierText_typeName (h.reads ('\x7d' :: '\n' :: behind)) h.solid
    offset
  exact ⟨_, t, hreads, rfl, checkDefinition_of_block htree hnumbers, declaredScalar?_of_type htree⟩

theorem readsScalar_scalar {name : List Char} (hname : isIdentifierText name)
    (hscalar : scalarOf? (String.ofList (scalarText name)) = some name) :
    (Piece.kept (scalarText name)).ReadsScalar := by
  intro offset behind
  obtain ⟨_, _, _, hreads⟩ := reads_scalar hname offset behind
  exact ⟨_, _, hreads, skip_skip _, rfl, hscalar.symm⟩

/-- A definition that is cut out whole declares by itself what it declares in its source, and
so does its text wherever it is put. -/
theorem readsScalar_of_isReadCut {source text cut : List Char} {c d : Cursor} {t : Tree Rule}
    (h : IsReadCut source c d t text cut) (huncut : IsUncut source t (d.skip .spaced).offset)
    (hroot : rootKind? t = none) : (Piece.kept text).ReadsScalar := by
  have hrest := returnsEndLines_of_isIn h.isIn h.returns
  rw [h.isCut.rest] at hrest
  have hcomments := hrest.of_append.comments
  obtain ⟨u, hu, houtline, -⟩ := exists_parse_of_isCut h.isIn hcomments h.skip h.reads h.follows
    h.check h.isCut (h.strings huncut hroot)
  have hscalar : scalarOf? (String.ofList text) = declaredScalar? t :=
    (scalarOf?_eq hu).trans (declaredScalar?_congr houtline)
  intro offset behind
  have hfeeds : ∀ x, ('\n' :: behind).head? = some x → x = '\n' := by
    rintro _ ⟨⟩
    rfl
  obtain ⟨d', v, hreads, hd', hv, -⟩ := exists_relaid_of_isCut h.isIn hcomments h.skip h.reads
    h.follows h.isCut (h.strings huncut hroot) hfeeds (fun _ => h.quotes) offset
  refine ⟨d', v, hreads, hd', ?_, ?_⟩
  · rw [checkDefinition_congr hv, h.check]
  · exact (declaredScalar?_congr hv).trans hscalar.symm

end Piece

section Reading

variable {fragment : Fragment} {fragments : List Fragment} {ps : List (Piece × List Char)}

/-- The definitions that are kept of a document that is cut out whole are read with their
scalars, wherever they are put. -/
theorem readsScalar_of_parse {name source : String} (hwhole : CutsWhole source.toList)
    (h : Fragment.parse name source = .ok fragment) :
    ∀ definition ∈ fragment.definitions, (Piece.kept definition.toList).ReadsScalar := by
  refine @parse_of_whole_step fragment (fun fragment => ∀ definition ∈ fragment.definitions,
    (Piece.kept definition.toList).ReadsScalar) _ _ hwhole h (by simp) ?_
  intro c d t text cut fragment hcut hwhole hfragment
  rw [definitions_addDefinition, List.forall_mem_append]
  refine ⟨hfragment, ?_⟩
  by_cases hroot : isKeptDefinition t
  · rw [if_pos hroot, List.forall_mem_singleton, String.toList_ofList]
    exact Piece.readsScalar_of_isReadCut hcut hwhole.uncut (Option.isNone_iff_eq_none.mp hroot)
  · rw [if_neg hroot]
    exact List.forall_mem_nil _

/-- The pieces of a document are read one behind the other, each with its scalar. -/
theorem exists_scalars_layOut (h : AreLaid ps) (hscalars : ∀ p ∈ ps, p.1.ReadsScalar)
    (offset : Nat) :
    ∃ ts, Definitions ⟨offset, layOut ps⟩ ts ∧ (∀ t ∈ ts, checkDefinition t = .ok ()) ∧
      List.Forall₂ (fun p t => declaredScalar? t = p.1.scalar?) ps ts := by
  induction ps generalizing offset with
  | nil => exact ⟨[], .done rfl, by simp, .nil⟩
  | cons p rest ih =>
    obtain ⟨piece, gap⟩ := p
    obtain ⟨⟨-, hgap⟩, hrest⟩ : (piece.Stands ∧ IsFeeds gap) ∧ AreLaid rest :=
      List.forall_mem_cons.mp h
    obtain ⟨hpiece, hscalars⟩ := List.forall_mem_cons.mp hscalars
    obtain ⟨feeds, hfeeds, -⟩ := id hgap
    have hbehind : gap ++ layOut rest = '\n' :: (feeds ++ layOut rest) := by rw [hfeeds]; rfl
    obtain ⟨d, t, hreads, hd, hcheck, hscalar⟩ := hpiece offset (feeds ++ layOut rest)
    rw [← hbehind] at hreads hd
    obtain ⟨ts, hts, hchecks, hall⟩ :=
      ih hrest hscalars (offset + piece.text.length + gap.length)
    exact ⟨t :: ts, definitions_layOut_cons hgap hrest hreads hd hts,
      List.forall_mem_cons.mpr ⟨hcheck, hchecks⟩, .cons hscalar hall⟩

theorem readsScalar_builtin (idScalar : IdScalar) :
    ∀ scalar ∈ builtinScalars idScalar, (Piece.kept scalar.toList).ReadsScalar := by
  have hdate : (Piece.kept "scalar Date".toList).ReadsScalar :=
    @Piece.readsScalar_scalar "Date".toList (by decide) (by decide +kernel)
  have huuid : (Piece.kept "scalar UUID".toList).ReadsScalar :=
    @Piece.readsScalar_scalar "UUID".toList (by decide) (by decide +kernel)
  cases idScalar with
  | id => exact List.forall_mem_singleton.mpr hdate
  | uuid => exact List.forall_mem_cons.mpr ⟨hdate, List.forall_mem_singleton.mpr huuid⟩

/-- A document that is laid out in pieces declares their scalars. -/
theorem exists_parse_layOut (h : AreLaid ps) (hne : ps ≠ [])
    (hscalars : ∀ piece ∈ ps.map Prod.fst, piece.ReadsScalar) :
    ∃ definitions, parseDocument (layOut ps) = .ok definitions ∧
      definitions.filterMap declaredScalar? = (ps.map Prod.fst).filterMap Piece.scalar? := by
  obtain ⟨ts, hts, hchecks, hall⟩ := exists_scalars_layOut h (List.forall_mem_map.mp hscalars) 0
  refine ⟨ts, parseDocument_layOut h hne hts hall.length_eq.symm hchecks, ?_⟩
  have hmap := map_eq_of_forall₂ hall
  calc ts.filterMap declaredScalar? = (ts.map declaredScalar?).filterMap id := by
        rw [List.filterMap_map, Function.id_comp]
    _ = (ps.map fun p => p.1.scalar?).filterMap id := by rw [hmap]
    _ = (ps.map Prod.fst).filterMap Piece.scalar? := by
        rw [List.filterMap_map, List.filterMap_map, Function.id_comp]
        rfl

section Parts

variable {scalars queries mutations others : List String}

theorem readsScalar_parts (h : AreParts scalars queries mutations others)
    (hscalars : ∀ definition ∈ scalars ++ others, (Piece.kept definition.toList).ReadsScalar) :
    ∀ piece ∈ keptPieces scalars ++ lowerPieces queries mutations others, piece.ReadsScalar := by
  have hkept : ∀ definitions, (∀ definition ∈ definitions,
      (Piece.kept definition.toList).ReadsScalar) →
        ∀ piece ∈ keptPieces definitions, piece.ReadsScalar :=
    fun definitions hall => List.forall_mem_map.mpr hall
  have hroot : ∀ kind lines, lines = [] ∨ AreFields (lines.map String.toList) →
      ∀ piece ∈ rootPieces kind lines, piece.ReadsScalar :=
    fun kind _ hlines => forall_mem_rootPieces fun hne =>
      Piece.readsScalar_root (hlines.resolve_left (by simpa using hne)) kind
  rw [List.forall_mem_append] at hscalars
  simp only [lowerPieces, List.forall_mem_append]
  exact ⟨hkept _ hscalars.1, hroot _ _ h.queries, hroot _ _ h.mutations, hkept _ hscalars.2⟩

theorem filterMap_scalar?_parts :
    (keptPieces scalars ++ lowerPieces queries mutations others).filterMap Piece.scalar? =
      (scalars ++ others).filterMap scalarOf? := by
  have hkept : ∀ definitions, (keptPieces definitions).filterMap Piece.scalar? =
      definitions.filterMap scalarOf? := by
    intro definitions
    rw [keptPieces, List.filterMap_map]
    refine List.filterMap_congr fun definition _ => ?_
    rw [Function.comp_apply, Piece.scalar?, String.ofList_toList]
  have hroot : ∀ kind lines, (rootPieces kind lines).filterMap Piece.scalar? = [] := by
    intro kind lines
    unfold rootPieces
    split <;> rfl
  simp only [lowerPieces, List.filterMap_append, hkept, hroot, List.nil_append]

/-- The scalars of a merged document are read with their names. -/
theorem readsScalar_addScalars (idScalar : IdScalar) {definitions : List String}
    (hscalars : ∀ definition ∈ definitions, (Piece.kept definition.toList).ReadsScalar) :
    ∀ scalar ∈ addScalars (builtinScalars idScalar) (definitions.filter isScalarDeclaration),
      (Piece.kept scalar.toList).ReadsScalar := by
  intro scalar hscalar
  rcases List.mem_append.mp ((addScalars_subset _ _).2 hscalar) with hscalar | hscalar
  · exact readsScalar_builtin idScalar scalar hscalar
  · exact hscalars scalar (List.mem_filter.mp hscalar).1

end Parts

/-- A merged document declares the scalars of the definitions that are kept. -/
theorem exists_scalars_merge (hsections : ∀ fragment ∈ fragments, AreSections fragment)
    (hscalars : ∀ definition ∈ fragments.flatMap Fragment.definitions,
      (Piece.kept definition.toList).ReadsScalar) (idScalar : IdScalar) :
    ∃ definitions, parseDocument (merge fragments idScalar).toList = .ok definitions ∧
      definitions.filterMap declaredScalar? =
        (together fragments idScalar "").definitions.filterMap scalarOf? := by
  have hparts := areParts_merge hsections idScalar
  have hreads := readsScalar_parts hparts (List.forall_mem_append.mpr
    ⟨readsScalar_addScalars idScalar hscalars, fun definition hmem =>
      hscalars definition (List.mem_filter.mp hmem).1⟩)
  rw [← map_fst_mergedPieces] at hreads
  obtain ⟨definitions, hparse, hall⟩ := exists_parse_layOut (areLaid_mergedPieces hparts)
    (mergedPieces_ne_nil hparts.ne_nil) hreads
  rw [map_fst_mergedPieces, filterMap_scalar?_parts] at hall
  rw [← toList_joinBlocks_eq hparts.ne_nil] at hparse
  exact ⟨definitions, hparse, hall⟩

end Reading

/-- What merging is given: the scalars of every document and the definitions of the
fragments. -/
def givenDefinitions (fragments : List Fragment) (idScalar : IdScalar) : List String :=
  builtinScalars idScalar ++ fragments.flatMap Fragment.definitions

/-- Two texts declare one scalar. -/
def DeclareSame (left right : String) : Prop :=
  ∃ name, scalarOf? left = some name ∧ scalarOf? right = some name

/-- Behind others, a definition is recognised as a scalar and has the words of one that was
recognised before. -/
def IsRepeat (before : List String) (definition : String) : Prop :=
  DeclaresScalar definition ∧ IsDeclared (before.filter (DeclaresScalar ·)) definition

/-- Both conditions are decidable. -/
instance (before : List String) (definition : String) : Decidable (IsRepeat before definition) :=
  inferInstanceAs (Decidable (_ ∧ _))

/-- Of two definitions that declare one scalar, one is recognised as a repeat. -/
def RecognisesRepeats (definitions : List String) : Prop :=
  ∀ i j, (hij : i < j) → (hj : j < definitions.length) →
    DeclareSame definitions[i] definitions[j] →
      IsRepeat (definitions.take i) definitions[i] ∨ IsRepeat (definitions.take j) definitions[j]

section Repeats

theorem addScalars_builtinScalars (idScalar : IdScalar) :
    addScalars [] ((builtinScalars idScalar).filter isScalarDeclaration) =
      builtinScalars idScalar := by
  cases idScalar <;> decide +kernel

/-- The scalars of a merged document are the new ones among all that are given. -/
theorem addScalars_given (definitions : List String) (idScalar : IdScalar) :
    addScalars (builtinScalars idScalar) (definitions.filter isScalarDeclaration) =
      newScalars [] (builtinScalars idScalar ++ definitions) := by
  have hnew := addScalars_filter [] (builtinScalars idScalar ++ definitions)
  rw [List.filter_append, addScalars_append, addScalars_builtinScalars, List.nil_append] at hnew
  exact hnew

theorem filter_not_builtinScalars (definitions : List String) (idScalar : IdScalar) :
    definitions.filter (!isScalarDeclaration ·) =
      (builtinScalars idScalar ++ definitions).filter (¬ DeclaresScalar ·) := by
  have hbuiltin : (builtinScalars idScalar).filter (¬ DeclaresScalar ·) = [] := by
    cases idScalar <;> decide +kernel
  rw [List.filter_append, hbuiltin, List.nil_append, filter_not_isScalarDeclaration]

/-- New scalars and other definitions are, in some order, those that repeat none before
them. -/
theorem newScalars_append_perm (definitions : List String) :
    (newScalars [] definitions ++ definitions.filter (¬ DeclaresScalar ·)).Perm
      ((definitions.zipIdx.filter fun entry =>
        ¬ IsRepeat (definitions.take entry.2) entry.1).map Prod.fst) := by
  have hnew : (definitions.zipIdx.filter fun entry =>
      ¬ IsRepeat (definitions.take entry.2) entry.1).filter (fun entry => DeclaresScalar entry.1) =
        definitions.zipIdx.filter fun entry =>
          IsNew [] (definitions.take entry.2) entry.1 := by
    rw [List.filter_filter]
    refine List.filter_congr fun entry _ => ?_
    rw [Bool.eq_iff_iff, Bool.and_eq_true, decide_eq_true_iff, decide_eq_true_iff,
      decide_eq_true_iff, IsRepeat, IsNew, List.nil_append]
    tauto
  have hother : (definitions.zipIdx.filter fun entry =>
      ¬ IsRepeat (definitions.take entry.2) entry.1).filter
        (fun entry => !decide (DeclaresScalar entry.1)) =
          definitions.zipIdx.filter ((fun definition => decide (¬ DeclaresScalar definition)) ∘
            Prod.fst) := by
    rw [List.filter_filter]
    refine List.filter_congr fun entry _ => ?_
    rw [Bool.eq_iff_iff, Bool.and_eq_true, Bool.not_eq_true', decide_eq_false_iff_not,
      decide_eq_true_iff, Function.comp_apply, decide_eq_true_iff, IsRepeat]
    tauto
  have hperm := (List.filter_append_perm (fun entry => decide (DeclaresScalar entry.1))
    (definitions.zipIdx.filter fun entry =>
      ¬ IsRepeat (definitions.take entry.2) entry.1)).map Prod.fst
  rw [List.map_append, hnew, hother, ← List.filter_map, List.zipIdx_map_fst] at hperm
  exact hperm

/-- No scalar is declared twice by those that repeat none before them exactly when every
repetition of a scalar is recognised. -/
theorem nodup_filterMap_scalarOf?_iff (definitions : List String) :
    (((definitions.zipIdx.filter fun entry =>
      ¬ IsRepeat (definitions.take entry.2) entry.1).map Prod.fst).filterMap scalarOf?).Nodup ↔
        RecognisesRepeats definitions := by
  rw [List.Nodup, List.pairwise_filterMap, List.pairwise_map, List.pairwise_filter,
    List.pairwise_iff_getElem]
  simp only [List.getElem_zipIdx, List.length_zipIdx, Nat.zero_add, decide_eq_true_iff]
  constructor
  · rintro h i j hij hj ⟨name, hleft, hright⟩
    by_contra hnot
    rw [not_or] at hnot
    exact h i j (hij.trans hj) hj hij hnot.1 hnot.2 name hleft name hright rfl
  · rintro h i j hi hj hij hkept hkept' name hleft name' hright rfl
    rcases h i j hij hj ⟨name, hleft, hright⟩ with hrepeat | hrepeat
    · exact hkept hrepeat
    · exact hkept' hrepeat

/-- Repetitions are recognised where all declarations of a scalar have the same words and begin
with the word for scalars and a space. -/
theorem recognisesRepeats_of_alike {definitions : List String}
    (h : ∀ left ∈ definitions, ∀ right ∈ definitions, DeclareSame left right →
      DeclaresScalar left ∧ wordsIn left = wordsIn right) :
    RecognisesRepeats definitions := by
  intro i j hij hj hsame
  have hi : i < definitions.length := hij.trans hj
  obtain ⟨hleft, htext⟩ := h _ (List.getElem_mem hi) _ (List.getElem_mem hj) hsame
  obtain ⟨hright, -⟩ := h _ (List.getElem_mem hj) _ (List.getElem_mem hi)
    (hsame.imp fun _ => And.symm)
  refine .inr ⟨hright, _, List.mem_filter.mpr ⟨?_, by simpa using hleft⟩, htext⟩
  rw [List.mem_take_iff_getElem]
  exact ⟨i, by omega, rfl⟩

end Repeats

/-- **Scalars that are declared once.**  When documents are split and their definitions are
cut out whole, the merged document declares no scalar twice exactly when every repetition
among the given definitions is recognised. -/
theorem merged_scalars_nodup_iff {sources : List (String × String)} {fragments : List Fragment}
    (hsources : sources.mapM (fun source => Fragment.parse source.1 source.2) = .ok fragments)
    (hwhole : ∀ source ∈ sources, CutsWhole source.2.toList) (idScalar : IdScalar) :
    ∃ definitions, parseDocument (merge fragments idScalar).toList = .ok definitions ∧
      ((definitions.filterMap declaredScalar?).Nodup ↔
        RecognisesRepeats (givenDefinitions fragments idScalar)) := by
  have hall := mapM_eq_ok_iff.mp hsources
  have hsections : ∀ fragment ∈ fragments, AreSections fragment :=
    forall_of_forall₂ hall fun source hsource _ => areSections_of_parse (hwhole source hsource)
  have hscalars : ∀ fragment ∈ fragments, ∀ definition ∈ fragment.definitions,
      (Piece.kept definition.toList).ReadsScalar :=
    forall_of_forall₂ hall fun source hsource _ => readsScalar_of_parse (hwhole source hsource)
  have hgiven : ∀ definition ∈ fragments.flatMap Fragment.definitions,
      (Piece.kept definition.toList).ReadsScalar := by
    intro definition hmem
    obtain ⟨fragment, hfragment, hmem⟩ := List.mem_flatMap.mp hmem
    exact hscalars fragment hfragment definition hmem
  obtain ⟨definitions, hparse, hdeclared⟩ := exists_scalars_merge hsections hgiven idScalar
  refine ⟨definitions, hparse, ?_⟩
  rw [hdeclared, ← nodup_filterMap_scalarOf?_iff]
  -- what is kept stands in another order than where it was given
  apply List.Perm.nodup_iff
  apply List.Perm.filterMap
  have hperm := newScalars_append_perm (givenDefinitions fragments idScalar)
  rw [givenDefinitions, ← addScalars_given, ← filter_not_builtinScalars] at hperm
  exact hperm

/-- Two documents with a scalar in common. -/
def calendars : List (String × String) :=
  [("hours", "scalar Time\n"), ("minutes", "scalar  Time\n")]

/-- What they are split into. -/
def calendarFragments : List Fragment :=
  [{ name := "hours", definitions := ["scalar Time"] },
   { name := "minutes", definitions := ["scalar  Time"] }]

theorem merged_scalars_calendars :
    calendars.mapM (fun source => Fragment.parse source.1 source.2) = .ok calendarFragments ∧
    (∀ source ∈ calendars, CutsWhole source.2.toList) ∧
    ∃ definitions, parseDocument (merge calendarFragments .uuid).toList = .ok definitions ∧
      ((definitions.filterMap declaredScalar?).Nodup ↔
        RecognisesRepeats (givenDefinitions calendarFragments .uuid)) := by
  have hparse : calendars.mapM (fun source => Fragment.parse source.1 source.2) =
      .ok calendarFragments :=
    mapM_eq_ok_iff.mpr (.cons (parse_of_toOption (by decide +kernel))
      (.cons (parse_of_toOption (by decide +kernel)) .nil))
  have hwhole : ∀ source ∈ calendars, CutsWhole source.2.toList :=
    List.forall_mem_cons.mpr ⟨cutsWhole_of_all (by decide +kernel) (by decide +kernel),
      List.forall_mem_singleton.mpr (cutsWhole_of_all (by decide +kernel) (by decide +kernel))⟩
  exact ⟨hparse, hwhole, merged_scalars_nodup_iff hparse hwhole .uuid⟩

/-- A scalar is declared twice if its second declaration has a tab for the space, a
description, directives or a comment. -/
theorem not_nodup_of_spelling :
    ∀ source ∈ ["scalar\tDate", "\"a day\" scalar Date", "scalar Date @d", "scalar Date # day"],
      ((Fragment.parse "days" source).toOption.bind fun fragment =>
        (parseDocument (merge [fragment] .id).toList).toOption.map
          (·.filterMap declaredScalar?)) = some ["Date".toList, "Date".toList] := by
  decide +kernel

end Sdl
end EntitySdl
