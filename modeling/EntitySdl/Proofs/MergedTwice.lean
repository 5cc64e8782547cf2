import EntitySdl.Proofs.OverrunDocuments
import EntitySdl.Proofs.ScalarDeclarations

/-! # Merging what was merged

A merged document that is accepted is merged into itself.  Each definition that is kept is
read again as it stands, provided that none was cut off within a string.  The lines of a root
type need no such proviso: if its body was cut out too far, up to a brace in a comment behind
it, then the merged document is rejected.
-/
namespace EntitySdl
namespace Sdl

open Name Text Grammar Cursor Sdl.Tree

/-- Definitions of a source, each of which is cut out up to the end of its strings, or of its
body. -/
structure AreUncut (source : List Char) (definitions : List (Tree Rule)) : Prop where
  /-- Carriage returns belong to line ends. -/
  returns : ReturnsEndLines source
  /-- No quote stands behind an empty string. -/
  quotes : ∀ p ∈ stringsAll definitions, p.2 = "\"\"".toList →
    (source.drop (p.1 + 2)).head? ≠ some '"'
  /-- Each definition is cut out so far. -/
  uncut : ∀ p ∈ withFinish source definitions, IsUncut source p.1 p.2

/-- The definitions of a document, if it is one, are cut out so far. -/
def LeavesUncut (source : List Char) : Prop :=
  ∀ definitions, parseDocument source = .ok definitions → AreUncut source definitions

/-- The sections of a document are definitions, and lines that are fields or end their body too
soon. -/
structure AreCutSections (fragment : Fragment) : Prop where
  /-- The definitions. -/
  definitions : ∀ definition ∈ fragment.definitions, IsDefinition definition.toList
  /-- The lines for queries. -/
  queries : MayOverrun (fragment.queryFields.map String.toList)
  /-- The lines for mutations. -/
  mutations : MayOverrun (fragment.mutationFields.map String.toList)

section Sections

variable {source text cut : List Char} {c d : Cursor} {t : Tree Rule} {fragment : Fragment}

/-- A definition that is cut out so far belongs to a section. -/
theorem areCutSections_addDefinition (hfragment : AreCutSections fragment)
    (h : IsReadCut source c d t text cut) (huncut : IsUncut source t (d.skip .spaced).offset) :
    AreCutSections (fragment.addDefinition source (place source t) text) := by
  have hplaced : (place source t).root = rootKind? t := rfl
  unfold Fragment.addDefinition
  cases hroot : rootKind? t with
  | none =>
    rw [hroot] at hplaced
    rw [hplaced]
    exact { hfragment with
      definitions := h.isDefinition_append huncut hroot hfragment.definitions }
  | some kind =>
    rw [hroot] at hplaced
    rw [hplaced]
    have hlines := mayOverrun_bodyLines h hroot huncut
    cases kind with
    | query =>
      refine { hfragment with queries := ?_ }
      rw [List.map_append]
      exact hfragment.queries.append hlines
    | mutation =>
      refine { hfragment with mutations := ?_ }
      rw [List.map_append]
      exact hfragment.mutations.append hlines

/-- A document is split into such sections. -/
theorem areCutSections_of_parse {name source : String} (huncut : LeavesUncut source.toList)
    (h : Fragment.parse name source = .ok fragment) : AreCutSections fragment :=
  parse_of_step h (fun definitions hparse => by
    obtain ⟨hreturns, hquotes, hcuts⟩ := huncut definitions hparse
    exact ⟨hreturns, hquotes, hcuts⟩) ⟨by simp, .inl rfl, .inl rfl⟩ fun hcut huncut hfragment =>
      areCutSections_addDefinition hfragment hcut huncut

theorem mayOverrun_flatMap {lines : Fragment → List String} {fragments : List Fragment}
    (h : ∀ fragment ∈ fragments, MayOverrun ((lines fragment).map String.toList)) :
    MayOverrun ((fragments.flatMap lines).map String.toList) := by
  induction fragments with
  | nil => exact .inl rfl
  | cons fragment rest ih =>
    rw [List.forall_mem_cons] at h
    rw [List.flatMap_cons, List.map_append]
    exact h.1.append (ih h.2)

end Sections

section Merged

variable {fragments : List Fragment}

theorem stands_or_overruns_rootPieces {lines : List String}
    (h : MayOverrun (lines.map String.toList)) (kind : RootKind) :
    ∀ piece ∈ rootPieces kind lines, piece.Stands ∨ piece.Overruns :=
  forall_mem_rootPieces fun hne => h.resolve_left (by simpa using hne)

/-- The pieces of a merged document stand by themselves, except that the body of a root type
may end too soon. -/
theorem stands_or_overruns (h : ∀ fragment ∈ fragments, AreCutSections fragment)
    (idScalar : IdScalar) :
    ∀ piece ∈ keptPieces (addScalars (builtinScalars idScalar)
          ((fragments.flatMap Fragment.definitions).filter isScalarDeclaration)) ++
        lowerPieces (fragments.flatMap Fragment.queryFields)
          (fragments.flatMap Fragment.mutationFields)
          ((fragments.flatMap Fragment.definitions).filter (!isScalarDeclaration ·)),
      piece.Stands ∨ piece.Overruns := by
  obtain ⟨hscalars, hothers⟩ :=
    isDefinition_merged (fun fragment hfragment => (h fragment hfragment).definitions) idScalar
  simp only [lowerPieces, List.forall_mem_append]
  exact ⟨fun piece hpiece => .inl (stands_keptPieces hscalars piece hpiece),
    stands_or_overruns_rootPieces (mayOverrun_flatMap fun fragment hfragment =>
      (h fragment hfragment).queries) .query,
    stands_or_overruns_rootPieces (mayOverrun_flatMap fun fragment hfragment =>
      (h fragment hfragment).mutations) .mutation,
    fun piece hpiece => .inl (stands_keptPieces hothers piece hpiece)⟩

/-- **Accepted merges lose nothing.**  If a merged document is accepted, it is split into all
that its fragments hold. -/
theorem eq_together_of_parse (h : ∀ fragment ∈ fragments, AreCutSections fragment)
    {idScalar : IdScalar} {name : String} {merged : Fragment}
    (hmerged : Fragment.parse name (merge fragments idScalar) = .ok merged) :
    merged = together fragments idScalar name := by
  have hne := addScalars_builtinScalars_ne_nil idScalar
    ((fragments.flatMap Fragment.definitions).filter isScalarDeclaration)
  have hpieces := stands_or_overruns h idScalar
  rw [← map_fst_mergedPieces, List.forall_mem_map] at hpieces
  have hlaid := areLaid_of_parse isFeeds_mergedPieces hpieces (mergedPieces_ne_nil hne)
    (toList_joinBlocks_eq hne) hmerged
  exact Except.ok.inj (hmerged.symm.trans (parse_mergedPieces hlaid hne name))

/-- All scalars of a merged document are recognised as such. -/
theorem isScalarDeclaration_of_mem_addScalars {idScalar : IdScalar} {definitions : List String} :
    ∀ scalar ∈ addScalars (builtinScalars idScalar) (definitions.filter isScalarDeclaration),
      isScalarDeclaration scalar := by
  intro scalar hscalar
  rcases List.mem_append.mp ((addScalars_subset _ _).2 hscalar) with hscalar | hscalar
  · have hbuiltin : ∀ scalar ∈ builtinScalars idScalar, isScalarDeclaration scalar := by
      cases idScalar <;> decide +kernel
    exact hbuiltin scalar hscalar
  · exact (List.mem_filter.mp hscalar).2

/-- What fragments hold together is merged as they are. -/
theorem merge_together (fragments : List Fragment) (idScalar : IdScalar) (name : String) :
    merge [together fragments idScalar name] idScalar = merge fragments idScalar := by
  let definitions := fragments.flatMap Fragment.definitions
  let scalars := addScalars (builtinScalars idScalar) (definitions.filter isScalarDeclaration)
  let others := definitions.filter (!isScalarDeclaration ·)
  have hscalars : ∀ scalar ∈ scalars, isScalarDeclaration scalar :=
    isScalarDeclaration_of_mem_addScalars
  -- the scalars and the others come apart as they were put together
  have hfirst : (scalars ++ others).filter isScalarDeclaration = scalars := by
    rw [List.filter_append, List.filter_eq_self.mpr hscalars, List.append_right_eq_self,
      List.filter_eq_nil_iff]
    intro definition hmem
    simpa using (List.mem_filter.mp hmem).2
  have hsecond : (scalars ++ others).filter (!isScalarDeclaration ·) = others := by
    rw [List.filter_append, List.filter_eq_nil_iff.mpr fun scalar hscalar => by
      simp [hscalars scalar hscalar], List.nil_append, List.filter_filter]
    simp only [Bool.and_self, others]
  have hagain : addScalars (builtinScalars idScalar) scalars = scalars :=
    addScalars_addScalars _ _
  have htogether : (together fragments idScalar name).definitions = scalars ++ others := rfl
  unfold merge
  simp only [List.flatMap_singleton, htogether, hfirst, hsecond, hagain]
  rfl

/-- **Merged documents are merged into themselves.**  When documents are split and none of
their definitions is cut off within a string, the merged document, if it is accepted, is
merged again as it is. -/
theorem merge_merged {sources : List (String × String)}
    (hsources : sources.mapM (fun source => Fragment.parse source.1 source.2) = .ok fragments)
    (huncut : ∀ source ∈ sources, LeavesUncut source.2.toList) {idScalar : IdScalar}
    {name : String} {merged : Fragment}
    (hmerged : Fragment.parse name (merge fragments idScalar) = .ok merged) :
    merge [merged] idScalar = merge fragments idScalar := by
  have hsections : ∀ fragment ∈ fragments, AreCutSections fragment :=
    forall_of_forall₂ (mapM_eq_ok_iff.mp hsources) fun source hsource _ =>
      areCutSections_of_parse (huncut source hsource)
  rw [eq_together_of_parse hsections hmerged]
  exact merge_together fragments idScalar name

theorem leavesUncut_of_all {source : List Char} (hreturn : '\r' ∉ source)
    (h : ∀ definitions ∈ (parseDocument source).toOption,
      (∀ p ∈ stringsAll definitions, p.2 = "\"\"".toList →
        (source.drop (p.1 + 2)).head? ≠ some '"') ∧
      ∀ p ∈ withFinish source definitions, IsUncut source p.1 p.2) : LeavesUncut source := by
  intro definitions hparse
  obtain ⟨hquotes, huncut⟩ := h definitions (by rw [hparse]; rfl)
  exact ⟨returnsEndLines_of_not_mem hreturn, hquotes, huncut⟩

/-- A document with a comment behind a field and one behind a definition. -/
def clock : String := "scalar Time\n# of day\ntype Query \x7b\n  now: Time # \x7bUTC\x7d\n\x7d\n"

/-- A document that repeats the scalar, with a block string before a type. -/
def diary : String := "scalar  Time\n\"\"\"\n# A day.\n\"\"\"\ntype Day \x7b start: Time \x7d\n"

/-- What the two are split into. -/
def diaryFragments : List Fragment :=
  [{ name := "clock", definitions := ["scalar Time"], queryFields := ["now: Time # \x7bUTC\x7d"] },
   { name := "diary"
     definitions := ["scalar  Time", "\"\"\"\n# A day.\n\"\"\"\ntype Day \x7b start: Time \x7d"] }]

/-- What the merged document is split into. -/
def diaryTogether : Fragment :=
  { name := "merged"
    definitions := ["scalar Date", "scalar UUID", "scalar Time",
      "\"\"\"\n# A day.\n\"\"\"\ntype Day \x7b start: Time \x7d"]
    queryFields := ["now: Time # \x7bUTC\x7d"] }

theorem merge_merged_diary :
    [("clock", clock), ("diary", diary)].mapM
      (fun source => Fragment.parse source.1 source.2) = .ok diaryFragments ∧
    (∀ source ∈ [("clock", clock), ("diary", diary)], LeavesUncut source.2.toList) ∧
    Fragment.parse "merged" (merge diaryFragments .uuid) = .ok diaryTogether ∧
    merge [diaryTogether] .uuid = merge diaryFragments .uuid := by
  have hparse : [("clock", clock), ("diary", diary)].mapM
      (fun source => Fragment.parse source.1 source.2) = .ok diaryFragments :=
    mapM_eq_ok_iff.mpr (.cons
      (parse_of_ofPlaced (by decide +kernel) (by decide +kernel) (by decide +kernel))
      (.cons (parse_of_ofPlaced (by decide +kernel) (by decide +kernel) (by decide +kernel)) .nil))
  have huncut : ∀ source ∈ [("clock", clock), ("diary", diary)], LeavesUncut source.2.toList :=
    List.forall_mem_cons.mpr ⟨leavesUncut_of_all (by decide +kernel) (by decide +kernel),
      List.forall_mem_singleton.mpr (leavesUncut_of_all (by decide +kernel) (by decide +kernel))⟩
  have hmerged : Fragment.parse "merged" (merge diaryFragments .uuid) = .ok diaryTogether :=
    parse_of_ofPlaced (by decide +kernel) (by decide +kernel) (by decide +kernel)
  exact ⟨hparse, huncut, hmerged, merge_merged hparse huncut hmerged⟩

/-- A document with a block string of which a line looks like a comment. -/
def torn : String := "type A @d(x: \"\"\"\n# \"\"\")\ntype T @e(y: \"\"\")\nscalar Z\n# \"\"\")\n"

/-- What it is split into. -/
def tornFragment : Fragment :=
  { name := "torn"
    definitions := ["type A @d(x: \"\"\"", "type T @e(y: \"\"\")\nscalar Z"] }

/-- What the merged document is split into. -/
def tornTogether : Fragment :=
  { name := "merged"
    definitions := ["scalar Date", "type A @d(x: \"\"\"\n\ntype T @e(y: \"\"\")", "scalar Z"] }

/-- A string that is cut off goes on up to the next one in the merged document, where other
definitions stand then, so that this one is merged into another. -/
theorem merge_merged_ne_of_torn : Fragment.parse "torn" torn = .ok tornFragment ∧
    Fragment.parse "merged" (merge [tornFragment] .id) = .ok tornTogether ∧
    merge [tornTogether] .id ≠ merge [tornFragment] .id :=
  ⟨parse_of_ofPlaced (by decide +kernel) (by decide +kernel) (by decide +kernel),
    parse_of_ofPlaced (by decide +kernel) (by decide +kernel) (by decide +kernel),
    by decide +kernel⟩

end Merged

end Sdl
end EntitySdl
