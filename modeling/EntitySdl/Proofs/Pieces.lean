import EntitySdl.Proofs.BodyLines

/-! # Documents made of pieces

A document that is written as a row of pieces, each of them a definition or a root
type, with line feeds between them, is split into a fragment with the same
definitions and the same root fields.
-/
namespace EntitySdl
namespace Sdl

open Name Text Grammar Cursor

/-- The name of a root type. -/
def RootKind.typeName : RootKind → List Char
  | .query => "Query".toList
  | .mutation => "Mutation".toList

/-- A piece of a document. -/
inductive Piece where
  /-- A definition that is kept as it stands. -/
  | kept (text : List Char)
  /-- A root type with the lines of its body. -/
  | root (kind : RootKind) (lines : List (List Char))

namespace Piece

/-- A piece as it is written. -/
def text : Piece → List Char
  | kept text => text
  | root kind lines => BlockKind.write .type kind.typeName (joinLines lines)

/-- The root type of a piece. -/
def root? : Piece → Option RootKind
  | kept _ => none
  | root kind _ => some kind

/-- What a piece adds to a fragment. -/
def addTo (fragment : Fragment) : Piece → Fragment
  | kept text => { fragment with definitions := fragment.definitions ++ [String.ofList text] }
  | root .query lines =>
    { fragment with queryFields := fragment.queryFields ++ lines.map String.ofList }
  | root .mutation lines =>
    { fragment with mutationFields := fragment.mutationFields ++ lines.map String.ofList }

end Piece

/-- A text that is kept as a definition, wherever it stands at the start of a line. -/
structure IsDefinition (text : List Char) : Prop where
  /-- It is trimmed. -/
  kept : IsKept text
  /-- It begins with a token. -/
  solid : IsSolid text
  /-- Its carriage returns belong to line ends. -/
  returns : ReturnsEndLines text
  /-- It is read as a definition other than that of a root type. -/
  reads : ∀ offset behind, ∃ d t, Reads (.one (.rule .definition))
      ⟨offset, text ++ '\n' :: behind⟩ d [t] ∧
    d.skip .spaced = Cursor.skip ⟨offset + text.length, '\n' :: behind⟩ .spaced ∧
      rootKind? t = none ∧ checkDefinition t = .ok ()

/-- Lines that are the fields of a type together. -/
structure AreFields (lines : List (List Char)) : Prop where
  /-- Each of them is a line. -/
  line : ∀ line ∈ lines, IsBodyLine line
  /-- They begin with a token. -/
  solid : IsSolid (joinLines lines)
  /-- They are read as fields. -/
  reads : ∀ behind, Spells (Peg.oneOrMore (.rule .fieldDefinition)) (joinLines lines)
    ('\n' :: behind)

theorem AreFields.ne_nil {lines : List (List Char)} (h : AreFields lines) : lines ≠ [] := by
  rintro rfl
  obtain ⟨c, rest, hlines, -⟩ := h.solid
  simp [joinLines] at hlines

theorem joinLines_append {lines more : List (List Char)} (h : lines ≠ []) (h' : more ≠ []) :
    joinLines (lines ++ more) = joinLines lines ++ (lineGap ++ joinLines more) :=
  intercalate_append h h'

/-- Fields with further fields behind them are fields. -/
theorem AreFields.append {lines more : List (List Char)} (h : AreFields lines)
    (h' : AreFields more) : AreFields (lines ++ more) where
  line line hline := (List.mem_append.mp hline).elim (h.line line) (h'.line line)
  solid := by
    rw [joinLines_append h.ne_nil h'.ne_nil]
    exact h.solid.append _
  reads behind := by
    rw [joinLines_append h.ne_nil h'.ne_nil]
    exact (h.reads _).oneOrMore (h'.reads behind) (by decide) h'.solid

/-- A piece that stands by itself. -/
def Piece.Stands : Piece → Prop
  | .kept text => IsDefinition text
  | .root _ lines => AreFields lines

section Nodes

/-- A node stands at a token behind a place. -/
def StandsBehind (c : Cursor) (t : Tree Rule) : Prop :=
  ∃ text x rest, c.rest = text ++ x :: rest ∧ t.start = c.offset + text.length ∧
    isSolidStart (x :: rest)

theorem StandsBehind.of_reaches {c d : Cursor} {t : Tree Rule} (hreaches : c.Reaches d)
    (h : StandsBehind d t) : StandsBehind c t := by
  obtain ⟨before, hrest, hoffset⟩ := hreaches
  obtain ⟨text, x, rest, hrest', hstart, hsolid⟩ := h
  refine ⟨before ++ text, x, rest, ?_, ?_, hsolid⟩
  · rw [hrest, hrest', List.append_assoc]
  · rw [hstart, hoffset, List.length_append, Nat.add_assoc]

theorem ne_feed_of_isSolidStart {x : Char} {rest : List Char} (h : isSolidStart (x :: rest)) :
    x ≠ '\n' := by
  rintro rfl
  cases h

/-- A node stands before a token of the source. -/
theorem StandsBehind.exists_token {c : Cursor} {t : Tree Rule} (h : StandsBehind c t)
    {source before : List Char} (hsource : source = before ++ c.rest)
    (hoffset : before.length = c.offset) : ∃ front x rest, source = front ++ x :: rest ∧
      t.start = front.length ∧ isSolidStart (x :: rest) := by
  obtain ⟨text, x, rest, hrest, hstart, hsolid⟩ := h
  refine ⟨before ++ text, x, rest, ?_, ?_, hsolid⟩
  · rw [hsource, hrest, List.append_assoc]
  · rw [hstart, List.length_append, hoffset]

/-- The place of a node comes out by its line and column. -/
theorem StandsBehind.placeOf_eq {c : Cursor} {t : Tree Rule} (h : StandsBehind c t)
    {source before : List Char} (hsource : source = before ++ c.rest)
    (hoffset : before.length = c.offset) (hreturns : ReturnsEndLines source) :
    placeOf source t.start = t.start := by
  obtain ⟨front, x, rest, htoken, hstart, hsolid⟩ := h.exists_token hsource hoffset
  rw [hstart]
  exact Sdl.placeOf_eq htoken (hreturns.lineIsClear htoken (ne_feed_of_isSolidStart hsolid))

variable {r : Rule} {c d : Cursor} {ts : List (Tree Rule)}

theorem standsBehind_of_reads (hr : r.isLexeme = false) (hempty : mayBeEmptyRule r = false)
    (hc : c.skip .spaced = c) (h : Reads (.one (.rule r)) c d ts) :
    ∃ t, ts = [t] ∧ t.rule = r ∧ t.start = c.offset ∧ StandsBehind c t := by
  obtain ⟨us, hbody, rfl⟩ := (reads_rule_iff hr).mp h
  refine ⟨_, rfl, rfl, rfl, ?_⟩
  have hbegin := Reads.begins h hc hempty
  cases hrest : c.rest with
  | nil =>
    rw [hrest] at hbegin
    exact absurd hbegin Heads.not_begin_nil
  | cons x rest =>
    refine ⟨[], x, rest, hrest, rfl, ?_⟩
    rw [← hrest]
    exact skip_eq_self_iff.mp hc

theorem standsBehind_of_more (hr : r.isLexeme = false) (hempty : mayBeEmptyRule r = false)
    {goal : Goal Rule} (h : Reads goal c d ts) (hgoal : goal = .more (.rule r)) :
    ∀ t ∈ ts, t.rule = r ∧ StandsBehind c t := by
  induction h using Reads.induct with
  | stop => simp
  | @again _ c m _ _ _ hfirst _ _ ih =>
    cases hgoal
    obtain ⟨t, rfl, hrule, -, hstands⟩ := standsBehind_of_reads hr hempty (skip_skip c) hfirst
    have hskip := skip_reaches c .spaced
    simp only [List.cons_append, List.nil_append, List.mem_cons, forall_eq_or_imp]
    refine ⟨⟨hrule, hstands.of_reaches hskip⟩, fun t ht => ?_⟩
    obtain ⟨hrule', hstands'⟩ := ih rfl t ht
    exact ⟨hrule', hstands'.of_reaches (hskip.trans hfirst.reaches)⟩
  | _ => cases hgoal

/-- The first of several nodes of one rule stands where reading begins, and the
others behind it. -/
theorem standsBehind_of_oneOrMore (hr : r.isLexeme = false) (hempty : mayBeEmptyRule r = false)
    (hc : c.skip .spaced = c) (h : Reads (.one (Peg.oneOrMore (.rule r))) c d ts) :
    (∃ t us, ts = t :: us ∧ t.start = c.offset) ∧ ∀ t ∈ ts, t.rule = r ∧ StandsBehind c t := by
  obtain ⟨m, us, vs, hfirst, hmany, rfl⟩ := reads_seq_iff.mp h
  obtain ⟨f, hmore, -⟩ := reads_more_of_many hmany
  obtain ⟨t, rfl, hrule, hstart, hstands⟩ := standsBehind_of_reads hr hempty hc hfirst
  refine ⟨⟨t, vs, rfl, hstart⟩, ?_⟩
  simp only [List.cons_append, List.nil_append, List.mem_cons, forall_eq_or_imp]
  refine ⟨⟨hrule, hstands⟩, fun t ht => ?_⟩
  obtain ⟨hrule', hstands'⟩ := standsBehind_of_more hr hempty hmore rfl t ht
  exact ⟨hrule', hstands'.of_reaches hfirst.reaches⟩

end Nodes

section Written

variable {kind : BlockKind} {name fields : List Char}

theorem write_eq (kind : BlockKind) (name fields : List Char) :
    kind.write name fields = kind.opening name ++ fields ++ '\n' :: ['\x7d'] := by
  simp [BlockKind.write]

theorem isSolid_write : IsSolid (kind.write name fields) := by
  cases kind <;> exact ⟨_, _, rfl, rfl⟩

theorem isKept_write : IsKept (kind.write name fields) where
  first := by cases kind <;> exact ⟨_, _, rfl, by decide⟩
  last c hc := by
    rw [write_eq, List.getLast?_append] at hc
    cases hc
    decide
  line before line hsplit hline := by
    rw [write_eq] at hsplit
    rw [← last_line_unique (by decide) hline hsplit]
    decide

theorem returnsEndLines_write (hname : isIdentifierText name) (hfields : ReturnsEndLines fields) :
    ReturnsEndLines (kind.write name fields) := by
  have hopening : '\r' ∉ kind.opening name := by
    have hpart : '\r' ∉ name := fun h => by
      cases isNamePart_of_mem_name hname '\r' h
    simp only [BlockKind.opening, List.mem_append, List.mem_cons, not_or]
    refine ⟨?_, by decide, hpart, by decide⟩
    cases kind <;> decide
  exact (returnsEndLines_of_not_mem hopening).append
    (hfields.append (returnsEndLines_of_not_mem (by decide)))

end Written

section Standing

variable {piece : Piece}

theorem Piece.Stands.isKept (h : piece.Stands) : IsKept piece.text := by
  cases piece with
  | kept text => exact h.kept
  | root kind lines => exact isKept_write

theorem Piece.Stands.isSolid (h : piece.Stands) : IsSolid piece.text := by
  cases piece with
  | kept text => exact h.solid
  | root kind lines => exact isSolid_write

theorem RootKind.isIdentifierText_typeName (kind : RootKind) : isIdentifierText kind.typeName := by
  cases kind <;> decide

theorem Piece.Stands.returnsEndLines (h : piece.Stands) : ReturnsEndLines piece.text := by
  cases piece with
  | kept text => exact h.returns
  | root kind lines =>
    refine returnsEndLines_write kind.isIdentifierText_typeName (returnsEndLines_of_not_mem ?_)
    exact not_mem_joinLines (by decide) fun line hline => (h.line line hline).carriage

/-- The definition of a piece that stands at an offset. -/
structure IsPlacement (piece : Piece) (offset : Nat) (d : PlacedDefinition) : Prop where
  /-- It begins there. -/
  start : d.start = offset
  /-- It is the same root type, if any. -/
  root : d.root = piece.root?
  /-- Its first field stands behind the opening brace. -/
  first : ∀ kind lines, piece = .root kind lines →
    d.fieldStarts.min? = some (offset + (BlockKind.type.opening kind.typeName).length)

theorem placeOf_definition {c : Cursor} {d : Cursor} {t : Tree Rule} (hc : c.skip .spaced = c)
    (h : Reads (.one (.rule .definition)) c d [t]) {source before : List Char}
    (hsource : source = before ++ c.rest) (hoffset : before.length = c.offset)
    (hreturns : ReturnsEndLines source) : placeOf source t.start = c.offset := by
  obtain ⟨t', ht, -, hstart, hstands⟩ := standsBehind_of_reads rfl rfl hc h
  cases ht
  rw [hstands.placeOf_eq hsource hoffset hreturns, hstart]

theorem min?_map_placeOf {c d : Cursor} {ts : List (Tree Rule)} (hc : c.skip .spaced = c)
    (h : Reads (.one (Peg.oneOrMore (.rule .fieldDefinition))) c d ts)
    {source before : List Char} (hsource : source = before ++ c.rest)
    (hoffset : before.length = c.offset) (hreturns : ReturnsEndLines source) :
    ((ts.map Tree.start).map (placeOf source)).min? = some c.offset := by
  obtain ⟨⟨t, us, hts, hstart⟩, hstands⟩ := standsBehind_of_oneOrMore rfl rfl hc h
  have hplaces : (ts.map Tree.start).map (placeOf source) = ts.map Tree.start := by
    rw [List.map_map]
    exact List.map_congr_left fun t ht => (hstands t ht).2.placeOf_eq hsource hoffset hreturns
  rw [hplaces, List.min?_eq_some_iff]
  constructor
  · rw [hts, List.map_cons, hstart]
    exact List.mem_cons_self
  · intro start hmem
    obtain ⟨t, ht, rfl⟩ := List.mem_map.mp hmem
    obtain ⟨text, x, rest, -, hstart, -⟩ := (hstands t ht).2
    omega

/-- A piece is read as a definition, which is found at its place. -/
theorem Piece.Stands.reads (h : piece.Stands) (offset : Nat) (behind : List Char) :
    ∃ d t, Reads (.one (.rule .definition)) ⟨offset, piece.text ++ '\n' :: behind⟩ d [t] ∧
      d.skip .spaced = Cursor.skip ⟨offset + piece.text.length, '\n' :: behind⟩ .spaced ∧
      checkDefinition t = .ok () ∧
      ∀ source before, source = before ++ (piece.text ++ '\n' :: behind) →
        before.length = offset → ReturnsEndLines source →
          IsPlacement piece offset (place source t) := by
  have hc : Cursor.skip ⟨offset, piece.text ++ '\n' :: behind⟩ .spaced =
      ⟨offset, piece.text ++ '\n' :: behind⟩ := skip_solid (h.isSolid.append _).start offset
  cases piece with
  | kept text =>
    obtain ⟨d, t, hreads, hd, hroot, hcheck⟩ := IsDefinition.reads h offset behind
    refine ⟨d, t, hreads, hd, hcheck, fun source before hsource hoffset hreturns => ?_⟩
    exact ⟨placeOf_definition hc hreads hsource hoffset hreturns, hroot, by simp⟩
  | root kind lines =>
    obtain ⟨d, ts, t, hfields, hnumbers, htree, hreads⟩ := @reads_block .type _ _
      ('\n' :: behind) kind.isIdentifierText_typeName
      (AreFields.reads h ('\x7d' :: '\n' :: behind)) (AreFields.solid h) offset
    refine ⟨_, t, hreads, rfl, checkDefinition_of_block htree hnumbers,
      fun source before hsource hoffset hreturns => ?_⟩
    have hroot : rootKind? t = some kind := by
      rw [rootKind?_of_type htree]
      cases kind <;> rfl
    refine ⟨placeOf_definition hc hreads hsource hoffset hreturns, hroot, ?_⟩
    rintro _ _ ⟨⟩
    have hsolid := skip_solid ((AreFields.solid h).append ('\n' :: '\x7d' :: '\n' :: behind)).start
      (offset + (BlockKind.type.opening kind.typeName).length)
    have hrules := (standsBehind_of_oneOrMore rfl rfl hsolid hfields).2
    rw [place]
    simp only [hroot, fieldStarts_of_type htree fun field hfield => (hrules field hfield).1]
    refine @min?_map_placeOf _ _ _ hsolid hfields _
      (before ++ BlockKind.type.opening kind.typeName) ?_ ?_ hreturns
    · rw [hsource]
      simp [Piece.text, BlockKind.write]
    · rw [List.length_append, hoffset]

end Standing

end Sdl
end EntitySdl
