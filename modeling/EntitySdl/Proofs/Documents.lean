import EntitySdl.Proofs.Layout
import EntitySdl.Sdl.Fragment

/-! # Documents in sections

A fragment as a document of its own and a merged document are both written in
pieces: definitions, the root types, and definitions again.  Both are read back,
section by section.
-/
namespace EntitySdl
namespace Sdl

open Name Text Grammar Cursor

/-- The lines of a block, as it is rendered. -/
theorem toList_join_lines (lines : List String) (hne : lines ≠ []) :
    (String.join (lines.map fun line => "  " ++ line ++ "\n")).toList =
      "  ".toList ++ (joinLines (lines.map String.toList) ++ ['\n']) := by
  induction lines with
  | nil => exact absurd rfl hne
  | cons line rest ih =>
    cases rest with
    | nil => simp [joinLines, String.join, String.toList_append]
    | cons next rest =>
      have := ih (by simp)
      rw [List.map_cons, String.join_cons, String.toList_append, this]
      simp [joinLines, List.intercalate_cons_cons, lineGap, String.toList_append]

theorem toList_renderBlock (kind : BlockKind) (name : String) {lines : List String}
    (hne : lines ≠ []) : (renderBlock kind name lines).toList =
      kind.write name.toList (joinLines (lines.map String.toList)) := by
  simp only [renderBlock, String.toList_append, toList_join_lines lines hne, BlockKind.write,
    BlockKind.opening]
  simp

/-- Pieces with a text between them and another one behind the last. -/
def withGaps (between last : List Char) : List Piece → List (Piece × List Char)
  | [] => []
  | [piece] => [(piece, last)]
  | piece :: next :: rest => (piece, between) :: withGaps between last (next :: rest)

section Gaps

variable {between last : List Char} {pieces : List Piece}

theorem layOut_append (ps qs : List (Piece × List Char)) :
    layOut (ps ++ qs) = layOut ps ++ layOut qs := by
  induction ps with
  | nil => rfl
  | cons p rest ih =>
    simp only [List.cons_append, layOut, ih, List.append_assoc]

theorem layOut_withGaps (hne : pieces ≠ []) :
    layOut (withGaps between last pieces) =
      between.intercalate (pieces.map Piece.text) ++ last := by
  induction pieces with
  | nil => exact absurd rfl hne
  | cons piece rest ih =>
    cases rest with
    | nil => simp [withGaps, layOut]
    | cons next rest =>
      rw [withGaps, layOut, ih (by simp)]
      simp only [List.map_cons, List.intercalate_cons_cons, List.append_assoc]

theorem withGaps_eq_nil_iff : withGaps between last pieces = [] ↔ pieces = [] := by
  cases pieces with
  | nil => simp [withGaps]
  | cons piece rest => cases rest <;> simp [withGaps]

theorem isFeeds_withGaps (hbetween : IsFeeds between) (hlast : IsFeeds last) :
    ∀ p ∈ withGaps between last pieces, IsFeeds p.2 := by
  induction pieces with
  | nil => simp [withGaps]
  | cons piece rest ih =>
    cases rest with
    | nil => simpa [withGaps] using hlast
    | cons next rest => exact List.forall_mem_cons.mpr ⟨hbetween, ih⟩

theorem map_fst_withGaps : (withGaps between last pieces).map Prod.fst = pieces := by
  induction pieces with
  | nil => rfl
  | cons piece rest ih =>
    cases rest with
    | nil => rfl
    | cons next rest => rw [withGaps, List.map_cons, ih]

/-- Pieces that stand by themselves are laid out with line feeds behind them. -/
theorem areLaid_of_map_fst {ps : List (Piece × List Char)} (hgaps : ∀ p ∈ ps, IsFeeds p.2)
    (h : ∀ piece ∈ ps.map Prod.fst, piece.Stands) : AreLaid ps :=
  fun p hp => ⟨h p.1 (List.mem_map_of_mem hp), hgaps p hp⟩

theorem areLaid_withGaps (h : ∀ piece ∈ pieces, piece.Stands) (hbetween : IsFeeds between)
    (hlast : IsFeeds last) : AreLaid (withGaps between last pieces) :=
  areLaid_of_map_fst (isFeeds_withGaps hbetween hlast) (by rwa [map_fst_withGaps])

end Gaps

/-- The piece of a root type, unless it has no lines. -/
def rootPieces (kind : RootKind) (lines : List String) : List Piece :=
  if lines.isEmpty then [] else [.root kind (lines.map String.toList)]

theorem forall_mem_rootPieces {holds : Piece → Prop} {kind : RootKind} {lines : List String}
    (h : lines ≠ [] → holds (.root kind (lines.map String.toList))) :
    ∀ piece ∈ rootPieces kind lines, holds piece := by
  cases lines with
  | nil => simp [rootPieces]
  | cons line rest =>
    rw [rootPieces, if_neg (by simp), List.forall_mem_singleton]
    exact h (List.cons_ne_nil line rest)

/-- Definitions as pieces. -/
def keptPieces (definitions : List String) : List Piece :=
  definitions.map fun definition => .kept definition.toList

/-- The pieces behind the first definitions of a document. -/
def lowerPieces (queries mutations others : List String) : List Piece :=
  rootPieces .query queries ++ (rootPieces .mutation mutations ++ keptPieces others)

/-- The sections of a document are definitions and fields. -/
structure AreSections (fragment : Fragment) : Prop where
  /-- The definitions. -/
  definitions : ∀ definition ∈ fragment.definitions, IsDefinition definition.toList
  /-- The fields for queries. -/
  queries : fragment.queryFields = [] ∨ AreFields (fragment.queryFields.map String.toList)
  /-- The fields for mutations. -/
  mutations : fragment.mutationFields = [] ∨ AreFields (fragment.mutationFields.map String.toList)

section Sections

variable {queries mutations others : List String}

theorem foldl_keptPieces (definitions : List String) (fragment : Fragment) :
    (keptPieces definitions).foldl (fun fragment piece => piece.addTo fragment) fragment =
      { fragment with definitions := fragment.definitions ++ definitions } := by
  induction definitions generalizing fragment with
  | nil => simp [keptPieces]
  | cons definition rest ih =>
    have := ih ({ fragment with definitions := fragment.definitions ++ [definition] })
    simp only [keptPieces, List.map_cons, List.foldl_cons, Piece.addTo, String.ofList_toList]
      at this ⊢
    rw [this, List.append_assoc]
    rfl

theorem foldl_lowerPieces (fragment : Fragment) :
    (lowerPieces queries mutations others).foldl (fun fragment piece => piece.addTo fragment)
        fragment =
      { fragment with
        definitions := fragment.definitions ++ others
        queryFields := fragment.queryFields ++ queries
        mutationFields := fragment.mutationFields ++ mutations } := by
  have hquery : ∀ fragment : Fragment, (rootPieces .query queries).foldl
      (fun fragment piece => piece.addTo fragment) fragment =
        { fragment with queryFields := fragment.queryFields ++ queries } := by
    intro fragment
    cases queries <;> simp [rootPieces, Piece.addTo]
  have hmutation : ∀ fragment : Fragment, (rootPieces .mutation mutations).foldl
      (fun fragment piece => piece.addTo fragment) fragment =
        { fragment with mutationFields := fragment.mutationFields ++ mutations } := by
    intro fragment
    cases mutations <;> simp [rootPieces, Piece.addTo]
  rw [lowerPieces, List.foldl_append, List.foldl_append, hquery, hmutation, foldl_keptPieces]

theorem map_text_keptPieces (definitions : List String) :
    (keptPieces definitions).map Piece.text = definitions.map String.toList := by
  simp [keptPieces, Piece.text]

theorem map_text_rootPieces (kind : RootKind) (name : String) (hname : name.toList = kind.typeName)
    (lines : List String) :
    (rootPieces kind lines).map Piece.text = (rootBlock name lines).map String.toList := by
  cases lines with
  | nil => rfl
  | cons line rest =>
    simp [rootPieces, rootBlock, Piece.text, @toList_renderBlock .type name (line :: rest),
      hname]

theorem map_text_lowerPieces : (lowerPieces queries mutations others).map Piece.text =
    (rootBlock "Query" queries ++ rootBlock "Mutation" mutations ++ others).map String.toList := by
  simp only [lowerPieces, List.map_append, map_text_keptPieces,
    map_text_rootPieces .query "Query" rfl, map_text_rootPieces .mutation "Mutation" rfl,
    List.append_assoc]

theorem stands_keptPieces {definitions : List String}
    (h : ∀ definition ∈ definitions, IsDefinition definition.toList) :
    ∀ piece ∈ keptPieces definitions, piece.Stands := by
  intro piece hpiece
  obtain ⟨definition, hdefinition, rfl⟩ := List.mem_map.mp hpiece
  exact h definition hdefinition

theorem stands_rootPieces {kind : RootKind} {lines : List String}
    (h : lines = [] ∨ AreFields (lines.map String.toList)) :
    ∀ piece ∈ rootPieces kind lines, piece.Stands :=
  forall_mem_rootPieces fun hne => h.resolve_left hne

theorem stands_lowerPieces (hqueries : queries = [] ∨ AreFields (queries.map String.toList))
    (hmutations : mutations = [] ∨ AreFields (mutations.map String.toList))
    (hothers : ∀ definition ∈ others, IsDefinition definition.toList) :
    ∀ piece ∈ lowerPieces queries mutations others, piece.Stands := by
  simp only [lowerPieces, List.forall_mem_append]
  exact ⟨stands_rootPieces hqueries, stands_rootPieces hmutations, stands_keptPieces hothers⟩

end Sections

theorem toList_joinBlocks {blocks : List String} (hne : blocks ≠ []) :
    (joinBlocks blocks).toList =
      "\n\n".toList.intercalate (blocks.map String.toList) ++ "\n".toList := by
  rw [joinBlocks, if_neg (by simpa using hne), String.toList_append, String.toList_intercalate]

theorem isFeeds_one : IsFeeds "\n".toList := ⟨[], rfl, by simp⟩

theorem isFeeds_two : IsFeeds "\n\n".toList := ⟨['\n'], rfl, by simp⟩

/-- **Rendered fragments are read back.**  A fragment with definitions and fields in its
sections is split from its own document. -/
theorem parse_render {fragment : Fragment} (h : AreSections fragment)
    (hne : fragment.isEmpty = false) (name : String) :
    Fragment.parse name fragment.render = .ok { fragment with name := name } := by
  let pieces := keptPieces fragment.definitions ++
    lowerPieces fragment.queryFields fragment.mutationFields []
  have hmap : pieces.map Piece.text = (fragment.definitions ++
      rootBlock "Query" fragment.queryFields ++
        rootBlock "Mutation" fragment.mutationFields).map String.toList := by
    simp only [pieces, List.map_append, map_text_keptPieces, map_text_lowerPieces,
      List.append_nil, List.append_assoc]
  have hpieces : pieces ≠ [] := by
    intro hnil
    simp only [Fragment.isEmpty, Bool.and_eq_false_iff, List.isEmpty_eq_false_iff] at hne
    simp only [pieces, keptPieces, lowerPieces, rootPieces, List.append_eq_nil_iff,
      List.map_eq_nil_iff, ite_eq_left_iff] at hnil
    rcases hne with (hne | hne) | hne
    · exact hne hnil.1
    · simpa [hne] using hnil.2.1
    · simpa [hne] using hnil.2.2.1
  have hstands : ∀ piece ∈ pieces, piece.Stands := by
    rw [List.forall_mem_append]
    exact ⟨stands_keptPieces h.definitions,
      stands_lowerPieces h.queries h.mutations (by simp)⟩
  have hsource : fragment.render.toList =
      layOut (withGaps "\n\n".toList "\n".toList pieces) := by
    rw [Fragment.render, toList_joinBlocks, ← hmap, layOut_withGaps hpieces]
    intro hnil
    rw [hnil] at hmap
    exact hpieces (List.map_eq_nil_iff.mp hmap)
  rw [parse_layOut (areLaid_withGaps hstands isFeeds_two isFeeds_one)
    (mt withGaps_eq_nil_iff.mp hpieces) hsource, ← List.foldl_map, map_fst_withGaps,
    List.foldl_append, foldl_keptPieces, foldl_lowerPieces]
  simp

/-- The parts of a merged document: scalars, the lines of the root types, and other
definitions. -/
structure AreParts (scalars queries mutations others : List String) : Prop where
  /-- At least one scalar is declared. -/
  ne_nil : scalars ≠ []
  /-- The scalars. -/
  scalars : ∀ definition ∈ scalars, IsDefinition definition.toList
  /-- The fields for queries. -/
  queries : queries = [] ∨ AreFields (queries.map String.toList)
  /-- The fields for mutations. -/
  mutations : mutations = [] ∨ AreFields (mutations.map String.toList)
  /-- The other definitions. -/
  others : ∀ definition ∈ others, IsDefinition definition.toList

section Merged

variable {scalars queries mutations others : List String}

/-- The pieces of a merged document, each with the line feeds behind it. -/
def mergedPieces (scalars queries mutations others : List String) : List (Piece × List Char) :=
  let lower := lowerPieces queries mutations others
  withGaps "\n".toList (if lower = [] then "\n" else "\n\n").toList (keptPieces scalars) ++
    withGaps "\n\n".toList "\n".toList lower

/-- A document of scalars, root types and other definitions is laid out in these pieces. -/
theorem toList_joinBlocks_eq (hne : scalars ≠ []) :
    (joinBlocks (["\n".intercalate scalars] ++ rootBlock "Query" queries ++
      rootBlock "Mutation" mutations ++ others)).toList =
        layOut (mergedPieces scalars queries mutations others) := by
  have hkept : keptPieces scalars ≠ [] := by simpa [keptPieces] using hne
  have hblocks : (joinBlocks (["\n".intercalate scalars] ++ rootBlock "Query" queries ++
      rootBlock "Mutation" mutations ++ others)).toList =
        "\n\n".toList.intercalate ("\n".toList.intercalate ((keptPieces scalars).map Piece.text) ::
          (lowerPieces queries mutations others).map Piece.text) ++ "\n".toList := by
    rw [toList_joinBlocks (by simp), map_text_keptPieces, map_text_lowerPieces]
    simp only [List.append_assoc, List.map_cons, List.cons_append, List.nil_append,
      String.toList_intercalate]
  rw [hblocks, mergedPieces, layOut_append, layOut_withGaps hkept]
  by_cases hnil : lowerPieces queries mutations others = []
  · rw [if_pos hnil, hnil, List.map_nil, List.intercalate_singleton]
    simp [withGaps, layOut]
  · rw [if_neg hnil, List.intercalate_cons_of_ne_nil (by simpa using hnil), layOut_withGaps hnil]
    simp only [List.append_assoc]

theorem map_fst_mergedPieces : (mergedPieces scalars queries mutations others).map Prod.fst =
    keptPieces scalars ++ lowerPieces queries mutations others := by
  rw [mergedPieces, List.map_append, map_fst_withGaps, map_fst_withGaps]

theorem mergedPieces_ne_nil (hne : scalars ≠ []) :
    mergedPieces scalars queries mutations others ≠ [] := by
  intro hnil
  have hpieces := congrArg (List.map Prod.fst) hnil
  rw [map_fst_mergedPieces, List.map_nil, List.append_eq_nil_iff, keptPieces,
    List.map_eq_nil_iff] at hpieces
  exact hne hpieces.1

theorem isFeeds_mergedPieces : ∀ p ∈ mergedPieces scalars queries mutations others,
    IsFeeds p.2 := by
  have hlast : IsFeeds
      (if lowerPieces queries mutations others = [] then "\n" else "\n\n").toList := by
    split
    · exact isFeeds_one
    · exact isFeeds_two
  exact List.forall_mem_append.mpr
    ⟨isFeeds_withGaps isFeeds_one hlast, isFeeds_withGaps isFeeds_two isFeeds_one⟩

theorem areLaid_mergedPieces (h : AreParts scalars queries mutations others) :
    AreLaid (mergedPieces scalars queries mutations others) := by
  refine areLaid_of_map_fst isFeeds_mergedPieces ?_
  rw [map_fst_mergedPieces, List.forall_mem_append]
  exact ⟨stands_keptPieces h.scalars, stands_lowerPieces h.queries h.mutations h.others⟩

/-- A merged document is split into its pieces, if they stand by themselves. -/
theorem parse_mergedPieces (h : AreLaid (mergedPieces scalars queries mutations others))
    (hne : scalars ≠ []) (name : String) :
    Fragment.parse name (joinBlocks (["\n".intercalate scalars] ++ rootBlock "Query" queries ++
        rootBlock "Mutation" mutations ++ others)) =
      .ok { name := name, definitions := scalars ++ others, queryFields := queries
            mutationFields := mutations } := by
  rw [parse_layOut h (mergedPieces_ne_nil hne) (toList_joinBlocks_eq hne), ← List.foldl_map,
    map_fst_mergedPieces, List.foldl_append, foldl_keptPieces, foldl_lowerPieces]
  simp

/-- **Merged documents are read back.**  A document of scalars, root types and other
definitions is split into these. -/
theorem parse_joinBlocks (h : AreParts scalars queries mutations others) (name : String) :
    Fragment.parse name (joinBlocks (["\n".intercalate scalars] ++ rootBlock "Query" queries ++
        rootBlock "Mutation" mutations ++ others)) =
      .ok { name := name, definitions := scalars ++ others, queryFields := queries
            mutationFields := mutations } :=
  parse_mergedPieces (areLaid_mergedPieces h) h.ne_nil name

end Merged

end Sdl
end EntitySdl
