import EntitySdl.Proofs.RootBodies

/-! # Merging documents that were written by hand

A document is split into its definitions and the lines of its root types.  If they
are cut out whole, each of them can be read by itself.  So the fragments of such
documents are merged into a document, and splitting this one gives back what they
held.
-/
namespace EntitySdl
namespace Sdl

open Name Text Grammar Cursor Sdl.Tree

/-- The definitions of a document, if it is one, are cut out whole. -/
def CutsWhole (source : List Char) : Prop :=
  ∀ definitions, parseDocument source = .ok definitions → AreCutWhole source definitions

namespace Grammar

section Places

variable {source : List Char} {c : Cursor} {ts : List (Tree Rule)}

/-- The first definition stands at the place, and the others behind it. -/
theorem Definitions.standsBehind (h : Definitions c ts) (hc : c.skip .spaced = c) :
    (∀ t, ts.head? = some t → t.start = c.offset) ∧ ∀ t ∈ ts, StandsBehind c t := by
  induction h with
  | done => simp
  | @next c d t ts h hrest ih =>
    obtain ⟨u, hu, -, hstart, hstands⟩ := standsBehind_of_reads rfl rfl hc h
    cases hu
    refine ⟨by rintro _ ⟨⟩; exact hstart, List.forall_mem_cons.mpr ⟨hstands, fun u hu => ?_⟩⟩
    exact ((ih (skip_skip d)).2 u hu).of_reaches (h.reaches.trans (skip_reaches d .spaced))

/-- If carriage returns belong to line ends, none stands before a definition on its
line. -/
theorem Definitions.lineIsClear (h : Definitions c ts) (hc : c.skip .spaced = c)
    (hin : c.IsIn source) (hreturns : ReturnsEndLines source) :
    ∀ t ∈ ts, LineIsClear source t.start := by
  intro t ht
  obtain ⟨before, hsource, hlength⟩ := hin
  obtain ⟨front, x, rest, htoken, hstart, hsolid⟩ :=
    ((h.standsBehind hc).2 t ht).exists_token hsource hlength
  rw [hstart]
  exact hreturns.lineIsClear htoken (ne_feed_of_isSolidStart hsolid)

/-- Definitions are placed where they start. -/
theorem Definitions.place_start (h : Definitions c ts) (hc : c.skip .spaced = c)
    (hin : c.IsIn source) (hclear : ∀ t ∈ ts, LineIsClear source t.start) :
    ∀ t ∈ ts, (place source t).start = t.start := by
  intro t ht
  obtain ⟨before, hsource, hlength⟩ := hin
  obtain ⟨front, x, rest, htoken, hstart, -⟩ :=
    ((h.standsBehind hc).2 t ht).exists_token hsource hlength
  have hline := hclear t ht
  rw [hstart] at hline
  rw [place, hstart]
  exact placeOf_eq htoken hline

/-- Definitions begin with no blank. -/
theorem Definitions.begin (h : Definitions c ts) (hc : c.skip .spaced = c) (hin : c.IsIn source) :
    ∀ t ∈ ts, ∀ x, (source.drop t.start).head? = some x → isBlank x = false := by
  induction h with
  | done => simp
  | @next c d t ts h hrest ih =>
    refine List.forall_mem_cons.mpr ⟨fun x hx => ?_, ih (skip_skip d) (hin.of_reaches
      (h.reaches.trans (skip_reaches d .spaced)))⟩
    obtain ⟨before, hsource, hlength⟩ := hin
    rw [((Definitions.next h hrest).standsBehind hc).1 t rfl, hsource, ← hlength,
      List.drop_left] at hx
    exact not_isBlank_of_definition (definition_begins hc h) x hx

/-- So none of them is torn. -/
theorem Definitions.anyTorn (h : Definitions c ts) (hc : c.skip .spaced = c)
    (hin : c.IsIn source) (hclear : ∀ t ∈ ts, LineIsClear source t.start) :
    anyTorn source (ts.map (place source)) = false := by
  refine anyTorn_eq_false fun d hd => ?_
  obtain ⟨t, ht, rfl⟩ := List.mem_map.mp hd
  rw [h.place_start hc hin hclear t ht]
  exact h.begin hc hin t ht

/-- The next definition starts at the place, or the text ends there. -/
theorem Definitions.next_start (h : Definitions c ts) (hc : c.skip .spaced = c)
    (hin : c.IsIn source) : (ts.head?.map Tree.start).getD source.length = c.offset := by
  have hhead := (h.standsBehind hc).1
  cases h with
  | done hend =>
    obtain ⟨before, hsource, hlength⟩ := hin
    rw [hend, List.append_nil] at hsource
    rw [hsource]
    exact hlength
  | next => exact hhead _ rfl

/-- So the definitions are placed in their order. -/
theorem Definitions.sorted (h : Definitions c ts) (hc : c.skip .spaced = c)
    (hin : c.IsIn source) (hclear : ∀ t ∈ ts, LineIsClear source t.start) :
    (ts.map (place source)).Pairwise fun a b => decide (a.start ≤ b.start) = true := by
  have hstarts : ts.Pairwise fun t u => t.start ≤ u.start := by
    clear hin hclear
    induction h with
    | done => exact .nil
    | @next c d t ts h hrest ih =>
      refine .cons (fun u hu => ?_) (ih (skip_skip d))
      obtain ⟨_, _, _, -, hstart, -⟩ := (hrest.standsBehind (skip_skip d)).2 u hu
      obtain ⟨_, -, hoffset⟩ := h.reaches.trans (skip_reaches d .spaced)
      have hhead := ((Definitions.next h hrest).standsBehind hc).1 t rfl
      omega
  refine List.pairwise_map.mpr (hstarts.imp_of_mem fun {t u} ht hu hle => decide_eq_true ?_)
  rwa [h.place_start hc hin hclear t ht, h.place_start hc hin hclear u hu]

end Places

end Grammar

section Splitting

variable {source : List Char} {c d : Cursor} {t : Tree Rule} {ts : List (Tree Rule)}

/-- The first of several definitions is cut out up to the start of the next one. -/
theorem exists_ofPlaced_cons (h : Reads (.one (.rule .definition)) c d [t])
    (hrest : Definitions (d.skip .spaced) ts) (hc : c.skip .spaced = c) (hin : c.IsIn source)
    (hclear : ∀ u ∈ t :: ts, LineIsClear source u.start) :
    ∃ text cut, IsCut source c d text cut ∧
      ∀ fragment, Fragment.ofPlaced source ((t :: ts).map (place source)) fragment =
        Fragment.ofPlaced source (ts.map (place source))
          (fragment.addDefinition source (place source t) text) := by
  obtain ⟨text, cut, hcut⟩ := exists_isCut hin hc h hrest.follows
  have hinRest := hin.of_reaches (h.reaches.trans (skip_reaches d .spaced))
  have hnext : nextStart source (ts.map (place source)) = (d.skip .spaced).offset := by
    rw [← hrest.next_start (skip_skip d) hinRest]
    cases hts : ts with
    | nil => rfl
    | cons u us =>
      exact hrest.place_start (skip_skip d) hinRest (List.forall_mem_cons.mp hclear).2 u
        (by rw [hts]; simp)
  have hstart : (place source t).start = c.offset :=
    ((Definitions.next h hrest).place_start hc hin hclear t List.mem_cons_self).trans
      (((Definitions.next h hrest).standsBehind hc).1 t rfl)
  refine ⟨text, cut, hcut, fun fragment => ?_⟩
  rw [List.map_cons, ofPlaced_cons hnext, hstart, hcut.trimmed]

theorem isIn_start (source : List Char) : (Cursor.skip ⟨0, source⟩ .spaced).IsIn source :=
  Cursor.IsIn.of_reaches ⟨[], rfl, rfl⟩ (skip_reaches _ .spaced)

/-- A document is split into its definitions as they stand. -/
theorem parse_eq_ofPlaced {name source : String} {definitions : List (Tree Rule)}
    (hcomment : isCommentOnly source.toList = false)
    (hparse : parseDocument source.toList = .ok definitions)
    (hclear : ∀ t ∈ definitions, LineIsClear source.toList t.start) :
    Fragment.parse name source = .ok (Fragment.ofPlaced source.toList
      (definitions.map (place source.toList)) { name := name }) := by
  obtain ⟨-, hdefinitions, -⟩ := parseDocument_eq_ok_iff.mp hparse
  have hin := isIn_start source.toList
  -- sorting leaves the definitions as they stand
  have hsorted := hdefinitions.sorted (skip_skip _) hin hclear
  have htorn := hdefinitions.anyTorn (skip_skip _) hin hclear
  unfold Fragment.parse
  rw [if_neg (by simp [hcomment]), hparse]
  simp only [List.mergeSort_of_pairwise hsorted, htorn]
  rfl

end Splitting

section Sections

variable {source text cut : List Char} {c d : Cursor} {t : Tree Rule} {ts : List (Tree Rule)}
  {fragment : Fragment}

/-- Lines that are fields go on with such lines, whether or not there are any. -/
theorem fields_append {lines more : List String}
    (h : lines = [] ∨ AreFields (lines.map String.toList))
    (h' : more = [] ∨ AreFields (more.map String.toList)) :
    lines ++ more = [] ∨ AreFields ((lines ++ more).map String.toList) := by
  rcases h with rfl | h
  · exact h'
  · rcases h' with rfl | h'
    · rw [List.append_nil]
      exact .inr h
    · rw [List.map_append]
      exact .inr (h.append h')

theorem fields_flatMap {lines : Fragment → List String} {fragments : List Fragment}
    (h : ∀ fragment ∈ fragments, lines fragment = [] ∨
      AreFields ((lines fragment).map String.toList)) :
    fragments.flatMap lines = [] ∨ AreFields ((fragments.flatMap lines).map String.toList) := by
  induction fragments with
  | nil => exact .inl rfl
  | cons fragment rest ih =>
    rw [List.forall_mem_cons] at h
    exact fields_append h.1 (ih h.2)

/-- A definition of a source that is read from one place to another, and the text that is
cut out for it. -/
structure IsReadCut (source : List Char) (c d : Cursor) (t : Tree Rule) (text cut : List Char) :
    Prop where
  /-- It is read in the source. -/
  isIn : c.IsIn source
  /-- It begins at the first place. -/
  skip : c.skip .spaced = c
  /-- It ends at the second. -/
  reads : Reads (.one (.rule .definition)) c d [t]
  /-- Another one follows, or the text ends. -/
  follows : Follows definitionHeads d
  /-- It obeys the rules. -/
  check : checkDefinition t = .ok ()
  /-- It is cut out. -/
  isCut : IsCut source c d text cut
  /-- Carriage returns belong to line ends. -/
  returns : ReturnsEndLines source
  /-- No quote stands behind an empty string. -/
  quotes : ∀ p ∈ t.strings, p.2 = "\"\"".toList → (source.drop (p.1 + 2)).head? ≠ some '"'

theorem IsReadCut.keptEnd (h : IsReadCut source c d t text cut) :
    keptEnd source t.start (d.skip .spaced).offset = c.offset + text.length :=
  keptEnd_of_isCut h.skip h.reads h.isCut

/-- Of a definition that is kept as it is written, the strings are kept. -/
theorem IsReadCut.strings (h : IsReadCut source c d t text cut)
    (huncut : IsUncut source t (d.skip .spaced).offset) (hroot : rootKind? t = none) :
    ∀ p ∈ t.strings, p.1 + p.2.length ≤ c.offset + text.length := by
  unfold IsUncut at huncut
  rwa [hroot, h.keptEnd] at huncut

/-- Such a definition joins others that can be read by themselves. -/
theorem IsReadCut.isDefinition_append {definitions : List String}
    (h : IsReadCut source c d t text cut) (huncut : IsUncut source t (d.skip .spaced).offset)
    (hroot : rootKind? t = none)
    (hdefinitions : ∀ definition ∈ definitions, IsDefinition definition.toList) :
    ∀ definition ∈ definitions ++ [String.ofList text], IsDefinition definition.toList := by
  rw [List.forall_mem_append, List.forall_mem_singleton, String.toList_ofList]
  exact ⟨hdefinitions, isDefinition_of_isCut h.isIn h.returns h.skip h.reads h.follows h.check
    hroot h.isCut (h.strings huncut hroot) h.quotes⟩

/-- What every definition preserves holds of what a document is split into, if it holds at
first.  The definitions may be asked to stand in their source in some way. -/
theorem ofPlaced_of_step {holds : Fragment → Prop} {stands : Tree Rule → Nat → Prop}
    (hstep : ∀ {c d t text cut fragment}, IsReadCut source c d t text cut →
      stands t (d.skip .spaced).offset → holds fragment →
        holds (fragment.addDefinition source (place source t) text))
    (h : Definitions c ts) (hc : c.skip .spaced = c) (hin : c.IsIn source)
    (hchecks : ∀ t ∈ ts, checkDefinition t = .ok ()) (hreturns : ReturnsEndLines source)
    (hquotes : ∀ p ∈ stringsAll ts, p.2 = "\"\"".toList →
      (source.drop (p.1 + 2)).head? ≠ some '"')
    (hstands : ∀ p ∈ withFinish source ts, stands p.1 p.2) (hfragment : holds fragment) :
    holds (Fragment.ofPlaced source (ts.map (place source)) fragment) := by
  induction h generalizing fragment with
  | done => exact hfragment
  | @next c d t ts h hrest ih =>
    obtain ⟨hcheck, hchecks⟩ := List.forall_mem_cons.mp hchecks
    obtain ⟨hstand, hstands⟩ := List.forall_mem_cons.mp hstands
    obtain ⟨text, cut, hcut, hsplit⟩ := exists_ofPlaced_cons h hrest hc hin
      ((Definitions.next h hrest).lineIsClear hc hin hreturns)
    have hinRest := hin.of_reaches (h.reaches.trans (skip_reaches d .spaced))
    rw [hrest.next_start (skip_skip d) hinRest] at hstand
    rw [stringsAll, List.forall_mem_append] at hquotes
    rw [hsplit]
    exact ih (skip_skip d) hinRest hchecks hquotes.2 hstands
      (hstep ⟨hin, hc, h, hrest.follows, hcheck, hcut, hreturns, hquotes.1⟩ hstand hfragment)

/-- The same for a text that is split as a document. -/
theorem parse_of_step {holds : Fragment → Prop} {stands : Tree Rule → Nat → Prop}
    {name source : String} (h : Fragment.parse name source = .ok fragment)
    (hsource : ∀ definitions, parseDocument source.toList = .ok definitions →
      ReturnsEndLines source.toList ∧
        (∀ p ∈ stringsAll definitions, p.2 = "\"\"".toList →
          (source.toList.drop (p.1 + 2)).head? ≠ some '"') ∧
        ∀ p ∈ withFinish source.toList definitions, stands p.1 p.2)
    (hnone : holds { name := name })
    (hstep : ∀ {c d t text cut fragment}, IsReadCut source.toList c d t text cut →
      stands t (d.skip .spaced).offset → holds fragment →
        holds (fragment.addDefinition source.toList (place source.toList t) text)) :
    holds fragment := by
  cases hcomment : isCommentOnly source.toList with
  | true =>
    rw [Fragment.parse, if_pos hcomment] at h
    cases h
    exact hnone
  | false =>
    cases hparse : parseDocument source.toList with
    | error fault =>
      rw [Fragment.parse, if_neg (by simp [hcomment]), hparse] at h
      cases h
    | ok definitions =>
      obtain ⟨hreturns, hquotes, hstands⟩ := hsource definitions hparse
      obtain ⟨-, hdefinitions, hchecks⟩ := parseDocument_eq_ok_iff.mp hparse
      have hin := isIn_start source.toList
      rw [parse_eq_ofPlaced hcomment hparse
        (hdefinitions.lineIsClear (skip_skip _) hin hreturns)] at h
      cases h
      exact ofPlaced_of_step hstep hdefinitions (skip_skip _) hin hchecks hreturns hquotes hstands
        hnone

/-- The same for definitions that are cut out whole. -/
theorem parse_of_whole_step {holds : Fragment → Prop} {name source : String}
    (hwhole : CutsWhole source.toList) (h : Fragment.parse name source = .ok fragment)
    (hnone : holds { name := name })
    (hstep : ∀ {c d t text cut fragment}, IsReadCut source.toList c d t text cut →
      IsCutWhole source.toList t (d.skip .spaced).offset → holds fragment →
        holds (fragment.addDefinition source.toList (place source.toList t) text)) :
    holds fragment :=
  parse_of_step h (fun definitions hparse => by
    obtain ⟨hreturns, hquotes, hcuts⟩ := hwhole definitions hparse
    exact ⟨hreturns, hquotes, hcuts⟩) hnone hstep

/-- **A definition that is cut out whole belongs to a section.** -/
theorem areSections_addDefinition (hfragment : AreSections fragment)
    (h : IsReadCut source c d t text cut)
    (hwhole : IsCutWhole source t (d.skip .spaced).offset) :
    AreSections (fragment.addDefinition source (place source t) text) := by
  have hplaced : (place source t).root = rootKind? t := rfl
  unfold Fragment.addDefinition
  cases hroot : rootKind? t with
  | none =>
    rw [hroot] at hplaced
    rw [hplaced]
    exact { hfragment with
      definitions := h.isDefinition_append hwhole.uncut hroot hfragment.definitions }
  | some kind =>
    unfold IsCutWhole at hwhole
    rw [hroot, h.keptEnd] at hwhole
    rw [hroot] at hplaced
    rw [hplaced]
    have hlines := areFields_bodyLines h.isIn h.returns ⟨_, h.isCut.rest.symm⟩ h.skip h.reads
      h.check hroot hwhole h.quotes
    cases kind with
    | query => exact { hfragment with queries := fields_append hfragment.queries hlines }
    | mutation => exact { hfragment with mutations := fields_append hfragment.mutations hlines }

/-- **Split documents have sections.**  A document whose definitions are cut out whole is
split into definitions and fields that can be read by themselves. -/
theorem areSections_of_parse {name source : String} (hwhole : CutsWhole source.toList)
    (h : Fragment.parse name source = .ok fragment) : AreSections fragment :=
  parse_of_whole_step hwhole h ⟨by simp, .inl rfl, .inl rfl⟩ fun hcut hwhole hfragment =>
    areSections_addDefinition hfragment hcut hwhole

end Sections

section Scalars

variable {name : List Char}

/-- A scalar and its name. -/
def scalarText (name : List Char) : List Char := ['s', 'c', 'a', 'l', 'a', 'r', ' '] ++ name

/-- The declaration of a scalar is read with its name. -/
theorem reads_scalar (hname : isIdentifierText name) (offset : Nat) (behind : List Char) :
    ∃ text text₁ text₂,
      Reads (.one (.rule .definition)) ⟨offset, scalarText name ++ '\n' :: behind⟩
        (Cursor.skip ⟨offset + (scalarText name).length, '\n' :: behind⟩ .spaced)
        [.node .definition offset text [.node .typeDefinition offset text₁
          [.node .scalarType offset text₂ [.node .name (offset + 7) name []]]]] := by
  have hlength : offset + 7 + name.length = offset + (scalarText name).length := by
    rw [scalarText, List.length_append, Nat.add_assoc]
    rfl
  have hhead : Cursor.skip ⟨offset, scalarText name ++ '\n' :: behind⟩ .spaced =
      ⟨offset, scalarText name ++ '\n' :: behind⟩ := skip_solid (by rfl) offset
  have hkeyword : Reads (.one (Peg.word "scalar")) ⟨offset, scalarText name ++ '\n' :: behind⟩
      ⟨offset + 6, ' ' :: (name ++ '\n' :: behind)⟩ [] := by
    refine .text ?_ rfl
    rw [scalarText, List.append_assoc]
    rfl
  have hname' : Reads (.one (.rule .name))
      (Cursor.skip ⟨offset + 6, ' ' :: (name ++ '\n' :: behind)⟩ .spaced)
      ⟨offset + (scalarText name).length, '\n' :: behind⟩ [.node .name (offset + 7) name []] := by
    rw [skip_blank (by decide) ((isSolid_name hname).append _).start, ← hlength]
    refine .token rfl (matches_name hname ?_ _)
    rintro x ⟨⟩
    decide
  have hscalar := Reads.rule (r := .scalarType) rfl (.left (Reads.seq_nil .absent (by
    rw [hhead]
    exact Reads.seq_nil hkeyword (.seq hname' .absent))))
  have htype := Reads.rule (r := .typeDefinition) rfl (.left hscalar)
  exact ⟨_, _, _, Reads.rule (r := .definition) rfl (.right (.left htype))⟩

theorem not_mem_scalarText (hname : isIdentifierText name) {c : Char} (hblank : isBlank c)
    (hspace : c ≠ ' ') : c ∉ scalarText name := by
  have hkeyword : ∀ x ∈ ['s', 'c', 'a', 'l', 'a', 'r', ' '], isBlank x → x = ' ' := by decide
  rw [scalarText, List.mem_append, not_or]
  refine ⟨fun hmem => hspace (hkeyword c hmem hblank), fun hmem => ?_⟩
  rw [Seam.not_isBlank_of_mem_name hname c hmem] at hblank
  cases hblank

/-- The declaration of a scalar is a definition. -/
theorem isDefinition_scalar (hname : isIdentifierText name) : IsDefinition (scalarText name) where
  kept := by
    refine ⟨⟨'s', _, rfl, by decide⟩, fun c hc => ?_, fun before line hsplit _ => ?_⟩
    · obtain ⟨x, rest, hcons, -⟩ := isSolid_name hname
      rw [scalarText, List.getLast?_append, hcons] at hc
      refine Seam.not_isBlank_of_mem_name hname c ?_
      rw [hcons]
      refine List.mem_of_getLast? ?_
      rw [List.getLast?_cons] at hc ⊢
      exact hc
    · have hmem : '\n' ∈ scalarText name := by simp [hsplit]
      exact absurd hmem (not_mem_scalarText hname (by decide) (by decide))
  solid := ⟨'s', _, rfl, rfl⟩
  returns := returnsEndLines_of_not_mem (not_mem_scalarText hname (by decide) (by decide))
  reads offset behind := by
    obtain ⟨_, _, _, h⟩ := reads_scalar hname offset behind
    exact ⟨_, _, h, skip_skip _, rfl, rfl⟩

theorem isDefinition_builtinScalars (idScalar : IdScalar) :
    ∀ scalar ∈ builtinScalars idScalar, IsDefinition scalar.toList := by
  have hdate : IsDefinition "scalar Date".toList := @isDefinition_scalar "Date".toList (by decide)
  have huuid : IsDefinition "scalar UUID".toList := @isDefinition_scalar "UUID".toList (by decide)
  cases idScalar with
  | id => exact List.forall_mem_singleton.mpr hdate
  | uuid => exact List.forall_mem_cons.mpr ⟨hdate, List.forall_mem_singleton.mpr huuid⟩

/-- The scalars that are retained are those before and some of the further ones. -/
theorem addScalars_subset (scalars further : List String) :
    scalars ⊆ addScalars scalars further ∧ addScalars scalars further ⊆ scalars ++ further := by
  induction further generalizing scalars with
  | nil =>
    rw [List.append_nil]
    exact ⟨List.Subset.refl _, List.Subset.refl _⟩
  | cons scalar rest ih =>
    rw [addScalars]
    split
    · refine ⟨(ih scalars).1, fun other hother => ?_⟩
      rcases List.mem_append.mp ((ih scalars).2 hother) with hother | hother
      · exact List.mem_append_left _ hother
      · exact List.mem_append_right _ (List.mem_cons_of_mem _ hother)
    · obtain ⟨hbefore, hbehind⟩ := ih (scalars ++ [scalar])
      refine ⟨List.Subset.trans (List.subset_append_left _ _) hbefore, ?_⟩
      rwa [List.append_assoc] at hbehind

end Scalars

section Merging

variable {fragments : List Fragment}

/-- What the fragments of a document hold together, scalars first. -/
def together (fragments : List Fragment) (idScalar : IdScalar) (name : String) : Fragment :=
  let definitions := fragments.flatMap Fragment.definitions
  { name := name
    definitions := addScalars (builtinScalars idScalar) (definitions.filter isScalarDeclaration) ++
      definitions.filter (!isScalarDeclaration ·)
    queryFields := fragments.flatMap Fragment.queryFields
    mutationFields := fragments.flatMap Fragment.mutationFields }

/-- The definitions of a merged document, scalars or not, are those of its fragments. -/
theorem isDefinition_merged (h : ∀ fragment ∈ fragments, ∀ definition ∈ fragment.definitions,
    IsDefinition definition.toList) (idScalar : IdScalar) :
    (∀ definition ∈ addScalars (builtinScalars idScalar)
        ((fragments.flatMap Fragment.definitions).filter isScalarDeclaration),
      IsDefinition definition.toList) ∧
    ∀ definition ∈ (fragments.flatMap Fragment.definitions).filter (!isScalarDeclaration ·),
      IsDefinition definition.toList := by
  have hdefinitions : ∀ definition ∈ fragments.flatMap Fragment.definitions,
      IsDefinition definition.toList := by
    intro definition hmem
    obtain ⟨fragment, hfragment, hmem⟩ := List.mem_flatMap.mp hmem
    exact h fragment hfragment definition hmem
  refine ⟨fun scalar hscalar => ?_,
    fun definition hmem => hdefinitions definition (List.mem_filter.mp hmem).1⟩
  rcases List.mem_append.mp ((addScalars_subset _ _).2 hscalar) with hscalar | hscalar
  · exact isDefinition_builtinScalars idScalar scalar hscalar
  · exact hdefinitions scalar (List.mem_filter.mp hscalar).1

/-- At least one scalar is declared in every document. -/
theorem addScalars_builtinScalars_ne_nil (idScalar : IdScalar) (further : List String) :
    addScalars (builtinScalars idScalar) further ≠ [] := by
  intro hnil
  have hbefore := (addScalars_subset (builtinScalars idScalar) further).1
  rw [hnil] at hbefore
  exact absurd (hbefore List.mem_cons_self) List.not_mem_nil

/-- Fragments with sections are merged of parts. -/
theorem areParts_merge (h : ∀ fragment ∈ fragments, AreSections fragment) (idScalar : IdScalar) :
    AreParts
      (addScalars (builtinScalars idScalar)
        ((fragments.flatMap Fragment.definitions).filter isScalarDeclaration))
      (fragments.flatMap Fragment.queryFields) (fragments.flatMap Fragment.mutationFields)
      ((fragments.flatMap Fragment.definitions).filter (!isScalarDeclaration ·)) := by
  obtain ⟨hscalars, hothers⟩ :=
    isDefinition_merged (fun fragment hfragment => (h fragment hfragment).definitions) idScalar
  exact ⟨addScalars_builtinScalars_ne_nil idScalar _, hscalars,
    fields_flatMap fun fragment hfragment => (h fragment hfragment).queries,
    fields_flatMap fun fragment hfragment => (h fragment hfragment).mutations, hothers⟩

/-- Fragments with sections are merged into a document that is split into what they
hold together. -/
theorem parse_merge (h : ∀ fragment ∈ fragments, AreSections fragment) (idScalar : IdScalar)
    (name : String) :
    Fragment.parse name (merge fragments idScalar) = .ok (together fragments idScalar name) :=
  parse_joinBlocks (areParts_merge h idScalar) name

/-- **Merging loses nothing.**  When documents are split and their definitions are cut out
whole, the fragments are merged into a document that is split into all that they
hold, whatever it is called. -/
theorem parse_merge_sources {sources : List (String × String)}
    (hsources : sources.mapM (fun source => Fragment.parse source.1 source.2) = .ok fragments)
    (hwhole : ∀ source ∈ sources, CutsWhole source.2.toList) (idScalar : IdScalar)
    (name : String) :
    Fragment.parse name (merge fragments idScalar) = .ok (together fragments idScalar name) := by
  refine parse_merge (forall_of_forall₂ (mapM_eq_ok_iff.mp hsources) ?_) idScalar name
  exact fun source hsource _ => areSections_of_parse (hwhole source hsource)

theorem cutsWhole_of_all {source : List Char} (hreturn : '\r' ∉ source)
    (h : ∀ definitions ∈ (parseDocument source).toOption,
      (∀ p ∈ stringsAll definitions, p.2 = "\"\"".toList →
        (source.drop (p.1 + 2)).head? ≠ some '"') ∧
      ∀ p ∈ withFinish source definitions, IsCutWhole source p.1 p.2) : CutsWhole source := by
  intro definitions hparse
  obtain ⟨hquotes, hwhole⟩ := h definitions (by rw [hparse]; rfl)
  exact ⟨returnsEndLines_of_not_mem hreturn, hquotes, hwhole⟩

/-- A root type with braces in a string and in a comment. -/
def braced : String :=
  "extend type Query \x7b\n  \"by \x7bid\x7d\"\n  a: Int # \x7d\n\x7d\n# done\n"

/-- A scalar and nothing else. -/
def plainScalar : String := "scalar  JSON\n"

/-- What the two are split into. -/
def bracedFragments : List Fragment :=
  [{ name := "braced", queryFields := ["\"by \x7bid\x7d\"", "a: Int # \x7d"] },
   { name := "scalar", definitions := ["scalar  JSON"] }]

theorem parse_of_toOption {name source : String} {fragment : Fragment}
    (h : (Fragment.parse name source).toOption = some fragment) :
    Fragment.parse name source = .ok fragment := by
  cases hresult : Fragment.parse name source with
  | error fault =>
    rw [hresult] at h
    cases h
  | ok other =>
    rw [hresult] at h
    cases h
    rfl

/-- A document without carriage returns is split into its definitions as they stand. -/
theorem parse_of_ofPlaced {name source : String} {fragment : Fragment}
    (hcomment : isCommentOnly source.toList = false) (hreturn : '\r' ∉ source.toList)
    (h : (parseDocument source.toList).toOption.map (fun definitions =>
      Fragment.ofPlaced source.toList (definitions.map (place source.toList)) { name := name }) =
        some fragment) : Fragment.parse name source = .ok fragment := by
  cases hparse : parseDocument source.toList with
  | error fault =>
    rw [hparse] at h
    cases h
  | ok definitions =>
    rw [hparse] at h
    cases h
    obtain ⟨-, hdefinitions, -⟩ := parseDocument_eq_ok_iff.mp hparse
    exact parse_eq_ofPlaced hcomment hparse (hdefinitions.lineIsClear (skip_skip _)
      (isIn_start _) (returnsEndLines_of_not_mem hreturn))

theorem parse_merge_braced :
    [("braced", braced), ("scalar", plainScalar)].mapM
      (fun source => Fragment.parse source.1 source.2) = .ok bracedFragments ∧
    (∀ source ∈ [("braced", braced), ("scalar", plainScalar)], CutsWhole source.2.toList) ∧
    Fragment.parse "merged" (merge bracedFragments .uuid) =
      .ok (together bracedFragments .uuid "merged") := by
  have hparse : [("braced", braced), ("scalar", plainScalar)].mapM
      (fun source => Fragment.parse source.1 source.2) = .ok bracedFragments :=
    mapM_eq_ok_iff.mpr (.cons (parse_of_toOption (by decide +kernel))
      (.cons (parse_of_toOption (by decide +kernel)) .nil))
  have hwhole : ∀ source ∈ [("braced", braced), ("scalar", plainScalar)],
      CutsWhole source.2.toList :=
    List.forall_mem_cons.mpr ⟨cutsWhole_of_all (by simp [braced]) (by decide +kernel),
      List.forall_mem_singleton.mpr (cutsWhole_of_all (by simp [plainScalar]) (by decide +kernel))⟩
  exact ⟨hparse, hwhole, parse_merge_sources hparse hwhole .uuid "merged"⟩

/-- The last brace may be one in a comment.  Then the brace of the body is taken for a
part of its last line, and the merged document is none. -/
theorem not_parse_merge_of_comment :
    (Fragment.parse "closed" "type Query \x7b a: Int \x7d # \x7d").toOption =
      some { name := "closed", queryFields := ["a: Int \x7d #"] } ∧
    (Fragment.parse "merged" (merge [{ name := "closed", queryFields := ["a: Int \x7d #"] }]
      .id)).toOption = none := by
  decide +kernel

end Merging

end Sdl
end EntitySdl
