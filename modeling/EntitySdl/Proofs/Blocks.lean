import EntitySdl.Proofs.Spelling
import EntitySdl.Sdl.Block

/-! # Blocks are definitions

A block, as it is written, is read as the definition of its type or its input,
provided that its lines are read as fields.  The tree of the definition has the
name and the fields at known places.
-/
namespace EntitySdl
namespace Sdl

open Name Text

namespace BlockKind

/-- The rule for a block of a kind. -/
def rule : BlockKind → Rule
  | type => .objectType
  | input => .inputObjectType

/-- The rule for the body of a block. -/
def bodyRule : BlockKind → Rule
  | type => .fieldsDefinition
  | input => .inputFieldsDefinition

/-- The rule for a field of a block. -/
def fieldRule : BlockKind → Rule
  | type => .fieldDefinition
  | input => .inputValueDefinition

/-- What is written before the fields of a block. -/
def opening (kind : BlockKind) (name : List Char) : List Char :=
  kind.keyword.toList ++ (' ' :: (name ++ " \x7b\n  ".toList))

/-- A block with its fields in one text. -/
def write (kind : BlockKind) (name fields : List Char) : List Char :=
  kind.opening name ++ (fields ++ "\n\x7d".toList)

end BlockKind

/-- The definition of a block of a kind and a name, at an offset, whose fields have
certain nodes. -/
def IsBlockTree (kind : BlockKind) (name : List Char) (offset : Nat) (fields : List (Tree Rule))
    (t : Tree Rule) : Prop :=
  ∃ text text₁ text₂ text₃ place place',
    t = .node .definition offset text [.node .typeDefinition offset text₁
      [.node kind.rule offset text₂ [.node .name place name [],
        .node kind.bodyRule place' text₃ fields]]]

namespace Grammar

open Cursor Peg

section Blocks

variable {kind : BlockKind} {name fields behind : List Char}

theorem isNamePart_of_mem_name (hname : isIdentifierText name) : ∀ x ∈ name, isNamePart x := by
  have hall := @isNamePart_of_mem (String.ofList name)
  rw [isIdentifier, String.toList_ofList] at hall
  exact hall hname

/-- A part of a name is neither a blank nor the mark of a comment. -/
theorem isSolidStart_of_isNamePart {c : Char} (h : isNamePart c) (rest : List Char) :
    isSolidStart (c :: rest) := by
  have hne : ∀ x, isNamePart x = false → c ≠ x := by
    rintro x hx rfl
    rw [h] at hx
    cases hx
  have hmark : c.toNat ≠ 0xFEFF := by
    intro hmark
    have := hne (Char.ofNat 0xFEFF) (by decide)
    exact this (by rw [← hmark, Char.ofNat_toNat])
  simp [isSolidStart, isSeparator, hmark, hne ' ' (by decide), hne ',' (by decide),
    hne '\t' (by decide), hne '\n' (by decide), hne '\r' (by decide), hne '#' (by decide)]

theorem isSolid_name (hname : isIdentifierText name) : IsSolid name := by
  cases name with
  | nil => cases hname
  | cons c rest =>
    rw [isIdentifierText, Bool.and_eq_true] at hname
    exact ⟨c, rest, rfl, isSolidStart_of_isNamePart (isNamePart_of_isNameStart hname.1) rest⟩

/-- The body of a block, between its braces. -/
theorem reads_body (hfields : Spells (oneOrMore (.rule kind.fieldRule)) fields
      ('\n' :: '\x7d' :: behind)) (hsolid : IsSolid fields) (offset : Nat) :
    ∃ d ts text, Reads (.one (oneOrMore (.rule kind.fieldRule)))
        ⟨offset + 4, fields ++ '\n' :: '\x7d' :: behind⟩ d ts ∧
      (Tree.textsOfAll .number ts).all isInRange ∧
      Reads (.one (.rule kind.bodyRule))
        ⟨offset, "\x7b\n  ".toList ++ (fields ++ ("\n\x7d".toList ++ behind))⟩
        ⟨offset + 6 + fields.length, behind⟩ [.node kind.bodyRule offset text ts] := by
  obtain ⟨d, ts, hreads, hd, hnumbers⟩ := hfields (offset + 4)
  have hopen : Cursor.skip ⟨offset + 1, "\n  ".toList ++ (fields ++ ("\n\x7d".toList ++ behind))⟩
      .spaced = ⟨offset + 4, fields ++ '\n' :: '\x7d' :: behind⟩ := by
    rw [skip_gap (by decide), skip_solid (hsolid.append _).start]
    rfl
  have hclose : d.skip .spaced = ⟨offset + 4 + fields.length + 1, '\x7d' :: behind⟩ := by
    rw [hd]
    exact skip_blank (by decide) rfl _
  have hbody : Reads (.one (between "\x7b" "\x7d" (oneOrMore (.rule kind.fieldRule))))
      ⟨offset, "\x7b\n  ".toList ++ (fields ++ ("\n\x7d".toList ++ behind))⟩
      ⟨offset + 6 + fields.length, behind⟩ ([] ++ (ts ++ [])) := by
    refine .seq (m := ⟨offset + 1, "\n  ".toList ++ (fields ++ ("\n\x7d".toList ++ behind))⟩)
      (.text rfl rfl) ?_
    rw [hopen]
    refine .seq hreads ?_
    rw [hclose]
    refine .text rfl ?_
    change offset + 6 + fields.length = offset + 4 + fields.length + 1 + 1
    omega
  rw [List.nil_append, List.append_nil] at hbody
  have hrule : kind.bodyRule.isLexeme = false ∧
      body kind.bodyRule = between "\x7b" "\x7d" (oneOrMore (.rule kind.fieldRule)) := by
    cases kind <;> exact ⟨rfl, rfl⟩
  rw [← hrule.2] at hbody
  exact ⟨d, ts, _, hreads, hnumbers, Reads.rule hrule.1 hbody⟩

/-- The rule of a kind of block is read by its keyword, its name and its body. -/
theorem reads_kind {c m n d : Cursor} {us ts : List (Tree Rule)} (hc : c.skip .spaced = c)
    (hkeyword : Reads (.one (.text kind.keyword.toList)) c m [])
    (hname : Reads (.one (.rule .name)) (m.skip .spaced) n us)
    (hbody : Reads (.one (.rule kind.bodyRule)) (n.skip .spaced) d ts) :
    Reads (.one (body kind.rule)) c d (us ++ ts) := by
  cases kind with
  | type =>
    refine .left (Reads.seq_nil .absent ?_)
    rw [hc]
    refine Reads.seq_nil hkeyword (.seq hname (Reads.seq_nil .absent ?_))
    rw [skip_skip]
    refine Reads.seq_nil .absent ?_
    rw [skip_skip]
    exact .present hbody
  | input =>
    refine .left (Reads.seq_nil .absent ?_)
    rw [hc]
    refine Reads.seq_nil hkeyword (.seq hname (Reads.seq_nil .absent ?_))
    rw [skip_skip]
    exact .present hbody

/-- **Blocks are definitions.**  A block with a name and with lines that are read as
fields is read as a definition, and its tree has the name and the fields. -/
theorem reads_block (hname : isIdentifierText name)
    (hfields : Spells (oneOrMore (.rule kind.fieldRule)) fields ('\n' :: '\x7d' :: behind))
    (hsolid : IsSolid fields) (offset : Nat) :
    ∃ d ts t, Reads (.one (oneOrMore (.rule kind.fieldRule)))
        ⟨offset + (kind.opening name).length, fields ++ '\n' :: '\x7d' :: behind⟩ d ts ∧
      (Tree.textsOfAll .number ts).all isInRange ∧ IsBlockTree kind name offset ts t ∧
      Reads (.one (.rule .definition)) ⟨offset, kind.write name fields ++ behind⟩
        ⟨offset + (kind.write name fields).length, behind⟩ [t] := by
  let rest := "\x7b\n  ".toList ++ (fields ++ ("\n\x7d".toList ++ behind))
  let place := offset + kind.keyword.toList.length + 1
  obtain ⟨d, ts, text, hreads, hnumbers, hbody⟩ :=
    reads_body hfields hsolid (place + name.length + 1)
  have hkeyword : isIdentifierText kind.keyword.toList := by cases kind <;> decide
  have hwritten : kind.write name fields ++ behind =
      kind.keyword.toList ++ (' ' :: (name ++ (' ' :: rest))) := by
    simp [BlockKind.write, BlockKind.opening, rest]
  have hopening : place + name.length + 1 + 4 = offset + (kind.opening name).length := by
    simp [BlockKind.opening, place]
    omega
  have hend : place + name.length + 1 + 6 + fields.length =
      offset + (kind.write name fields).length := by
    rw [BlockKind.write, List.length_append, ← Nat.add_assoc, ← hopening, List.length_append]
    simp
    omega
  rw [hopening] at hreads
  rw [hend] at hbody
  have hhead : Cursor.skip ⟨offset, kind.write name fields ++ behind⟩ .spaced =
      ⟨offset, kind.write name fields ++ behind⟩ := by
    rw [hwritten]
    exact skip_solid ((isSolid_name hkeyword).append _).start _
  have hname' : Reads (.one (.rule .name))
      (Cursor.skip ⟨offset + kind.keyword.toList.length, ' ' :: (name ++ (' ' :: rest))⟩ .spaced)
      ⟨place + name.length, ' ' :: rest⟩ [.node .name place name []] := by
    rw [skip_blank (by decide) ((isSolid_name hname).append _).start]
    refine .token rfl (matches_name hname ?_ place)
    rintro x ⟨⟩
    decide
  have hbody' : Reads (.one (.rule kind.bodyRule))
      (Cursor.skip ⟨place + name.length, ' ' :: rest⟩ .spaced)
      ⟨offset + (kind.write name fields).length, behind⟩
      [.node kind.bodyRule (place + name.length + 1) text ts] := by
    rw [skip_blank (by decide) rfl]
    exact hbody
  have hkind := Reads.rule (by cases kind <;> rfl)
    (reads_kind hhead (.text hwritten rfl) hname' hbody')
  have htype := Reads.rule (r := .typeDefinition) rfl ((@reads_firstOf_iff _ _ _
    (typeRules.map .rule)).mpr ⟨_, List.mem_map_of_mem (by cases kind <;> decide), hkind⟩)
  have hdefinition := Reads.rule (r := .definition) rfl (.right (.left htype))
  exact ⟨d, ts, _, hreads, hnumbers, ⟨_, _, _, _, _, _, rfl⟩, hdefinition⟩

end Blocks

end Grammar

section Trees

variable {kind : BlockKind} {name : List Char} {offset : Nat} {fields : List (Tree Rule)}
  {t : Tree Rule}

/-- A type is a root type by its name. -/
theorem rootKind?_of_type (h : IsBlockTree .type name offset fields t) :
    rootKind? t = if name = "Query".toList then some .query
      else if name = "Mutation".toList then some .mutation else none := by
  obtain ⟨_, _, _, _, _, _, rfl⟩ := h
  rfl

theorem rootKind?_of_input (h : IsBlockTree .input name offset fields t) :
    rootKind? t = none := by
  obtain ⟨_, _, _, _, _, _, rfl⟩ := h
  rfl

theorem fieldStarts_of_type (h : IsBlockTree .type name offset fields t)
    (hfields : ∀ field ∈ fields, field.rule = .fieldDefinition) :
    fieldStarts t = fields.map Tree.start := by
  obtain ⟨_, _, _, _, _, _, rfl⟩ := h
  have hall : fields.filter (fun field => decide (field.rule = .fieldDefinition)) = fields :=
    List.filter_eq_self.mpr fun field hfield => by simp [hfields field hfield]
  change ([fields.filter fun field => decide (field.rule = .fieldDefinition)].flatMap
    fun fields => fields.map Tree.start) = _
  rw [hall, List.flatMap_singleton]

theorem checkDefinition_of_block (h : IsBlockTree kind name offset fields t)
    (hnumbers : (Tree.textsOfAll .number fields).all isInRange) :
    checkDefinition t = .ok () := by
  obtain ⟨_, _, _, _, _, _, rfl⟩ := h
  have htexts : ∀ text text₁ text₂ text₃ place place', Tree.textsOf .number
      (.node .definition offset text [.node .typeDefinition offset text₁
        [.node kind.rule offset text₂ [.node .name place name [],
          .node kind.bodyRule place' text₃ fields]]]) = Tree.textsOfAll .number fields := by
    intros
    cases kind <;> simp [Tree.textsOf, Tree.textsOfAll, BlockKind.rule, BlockKind.bodyRule]
  unfold checkDefinition
  rw [htexts, hnumbers]
  rfl

end Trees

end Sdl
end EntitySdl
