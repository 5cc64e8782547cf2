import EntitySdl.Proofs.Documents
import EntitySdl.Proofs.TypeRefs

/-! # Written fields and blocks

A field without a directive, all of whose names are identifiers, is written as a
line that is read as a field.  So a block of such fields is a definition, and such
lines may stand in a root type.
-/
namespace EntitySdl
namespace Sdl

open Name Text Grammar Cursor Peg

namespace FieldLine

/-- A field that is written with names only. -/
structure IsPlain (field : FieldLine) : Prop where
  /-- Its name is an identifier. -/
  name : isIdentifier field.name
  /-- The names of its arguments are identifiers, and so are those in their types. -/
  arguments : ∀ argument ∈ field.arguments, isIdentifier argument.1 ∧ argument.2.IsNamed
  /-- The names in its type are identifiers. -/
  type : field.type.IsNamed
  /-- It has no directive. -/
  directive : field.directive = none

/-- The arguments of a field as they are written. -/
def argumentText (arguments : List (String × TypeRef)) : List Char :=
  ", ".toList.intercalate
    (arguments.map fun argument => argument.1.toList ++ (": ".toList ++ argument.2.text.toList))

theorem toList_text {field : FieldLine} (h : field.directive = none) :
    field.text.toList = field.name.toList ++
      ((if field.arguments.isEmpty then [] else '(' :: (argumentText field.arguments ++ [')'])) ++
        (": ".toList ++ field.type.text.toList)) := by
  have htext : field.text = field.name ++ (if field.arguments.isEmpty then ""
      else "(" ++ ", ".intercalate (field.arguments.map
        fun argument => argument.1 ++ ": " ++ argument.2.text) ++ ")") ++
      ": " ++ field.type.text ++ "" := by
    unfold text
    rw [h]
  have harguments : (", ".intercalate (field.arguments.map
      fun argument => argument.1 ++ ": " ++ argument.2.text)).toList =
        argumentText field.arguments := by
    rw [String.toList_intercalate, argumentText, List.map_map]
    refine congrArg _ (List.map_congr_left fun argument _ => ?_)
    simp [String.toList_append]
  rw [htext]
  by_cases hempty : field.arguments.isEmpty
  · simp [hempty, String.toList_append]
  · simp only [hempty, Bool.false_eq_true, if_false, String.toList_append, harguments]
    simp

end FieldLine

section Spelled

variable {name text behind : List Char} {type : TypeRef} {e : Peg Rule}

/-- A name stands before a text that goes on with a mark. -/
theorem spells_name_seq (hname : isIdentifierText name) (h : Spells e text behind)
    (htext : IsSolid text) (hmark : ∀ x, text.head? = some x → isNamePart x = false) :
    Spells (.seq (.rule .name) e) (name ++ text) behind := by
  refine @Spells.seq _ _ _ [] _ _ (spells_name hname ?_) h (by decide) htext
  intro x hx
  obtain ⟨c, rest, rfl, -⟩ := htext
  exact hmark x hx

/-- A colon, a type and nothing else. -/
theorem spells_typed (htype : type.IsNamed)
    (hbehind : ∀ x, behind.head? = some x → TypeRef.endsType x)
    (habsent : ∀ c, c.skip .spaced = c → Reads (.one e) c c []) :
    Spells (.seq (word ":") (.seq (.rule .typeRef) e)) (": ".toList ++ type.text.toList) behind :=
  @Spells.seq _ _ _ [' '] _ _ (spells_word [':'])
    ((type.spells_text htype hbehind).seq_absent habsent) (by decide) (type.isSolid_text htype)

theorem isSolid_typed : IsSolid (": ".toList ++ type.text.toList) := ⟨':', _, rfl, rfl⟩

/-- An argument or the field of an input. -/
theorem spells_inputValue (hname : isIdentifierText name) (htype : type.IsNamed)
    (hbehind : ∀ x, behind.head? = some x → TypeRef.endsType x) :
    Spells (.rule .inputValueDefinition) (name ++ (": ".toList ++ type.text.toList)) behind := by
  have htyped : Spells (.seq (word ":") (.seq (.rule .typeRef)
      (.seq (.optional (.rule .defaultValue)) directives))) (": ".toList ++ type.text.toList)
        behind := by
    refine spells_typed htype hbehind fun c hc => Reads.seq_nil .absent ?_
    rw [hc]
    exact .absent
  refine .rule rfl (by decide) (.absent_seq (spells_name_seq hname htyped isSolid_typed ?_)
    ((isSolid_name hname).append _) fun _ => .absent)
  rintro x ⟨⟩
  decide

end Spelled

namespace FieldLine

variable {arguments : List (String × TypeRef)} {behind : List Char}

theorem isSolid_argumentText (hne : arguments ≠ [])
    (h : ∀ argument ∈ arguments, isIdentifier argument.1 ∧ argument.2.IsNamed) :
    IsSolid (argumentText arguments) := by
  cases arguments with
  | nil => exact absurd rfl hne
  | cons argument rest =>
    have hname := isSolid_name (h argument List.mem_cons_self).1
    cases rest with
    | nil => simpa [argumentText] using hname.append _
    | cons next rest =>
      simp only [argumentText, List.map_cons, List.intercalate_cons_cons, List.append_assoc]
      exact hname.append _

/-- Arguments are spelled one by one. -/
theorem spells_argumentText (hne : arguments ≠ [])
    (h : ∀ argument ∈ arguments, isIdentifier argument.1 ∧ argument.2.IsNamed) :
    Spells (oneOrMore (.rule .inputValueDefinition)) (argumentText arguments) (')' :: behind) := by
  induction arguments with
  | nil => exact absurd rfl hne
  | cons argument rest ih =>
    obtain ⟨hargument, hrest⟩ := List.forall_mem_cons.mp h
    cases rest with
    | nil =>
      simp only [argumentText, List.map_cons, List.map_nil, List.intercalate_singleton]
      refine (spells_inputValue hargument.1 hargument.2 ?_).once
      rintro x ⟨⟩
      decide
    | cons next rest =>
      have hmore := isSolid_argumentText (by simp) hrest
      have hjoin : argumentText (argument :: next :: rest) = (argument.1.toList ++
          (": ".toList ++ argument.2.text.toList)) ++
            (", ".toList ++ argumentText (next :: rest)) := by
        simp only [argumentText, List.map_cons, List.intercalate_cons_cons, List.append_assoc]
      rw [hjoin]
      refine (spells_inputValue hargument.1 hargument.2 ?_).once.oneOrMore (ih (by simp) hrest)
        (by decide) hmore
      rintro x ⟨⟩
      decide

theorem spells_arguments (hne : arguments ≠ [])
    (h : ∀ argument ∈ arguments, isIdentifier argument.1 ∧ argument.2.IsNamed) :
    Spells (.rule .argumentsDefinition) ('(' :: (argumentText arguments ++ [')'])) behind := by
  have hclose : Spells (.seq (oneOrMore (.rule .inputValueDefinition)) (word ")"))
      (argumentText arguments ++ [')']) behind :=
    @Spells.seq _ _ _ [] [')'] _ (spells_argumentText hne h) (spells_word [')']) (by decide)
      ⟨')', [], rfl, rfl⟩
  exact .rule rfl (by decide) (@Spells.seq _ _ _ [] _ _ (spells_word ['(']) hclose (by decide)
    ((isSolid_argumentText hne h).append _))

variable {field : FieldLine}

theorem isSolid_text (h : field.IsPlain) : IsSolid field.text.toList := by
  rw [toList_text h.directive]
  exact (isSolid_name h.name).append _

/-- A field of a type is spelled by its line. -/
theorem spells_text (h : field.IsPlain) :
    Spells (.rule .fieldDefinition) field.text.toList ('\n' :: behind) := by
  have htyped : Spells (.seq (word ":") (.seq (.rule .typeRef) directives))
      (": ".toList ++ field.type.text.toList) ('\n' :: behind) := by
    refine spells_typed h.type ?_ fun _ _ => .absent
    rintro x ⟨⟩
    decide
  have hsolid := (isSolid_name h.name).append (": ".toList ++ field.type.text.toList)
  rw [toList_text h.directive]
  cases harguments : field.arguments with
  | nil =>
    refine .rule rfl (by decide) (.absent_seq (spells_name_seq h.name (.absent_seq htyped
      isSolid_typed fun _ => .absent) isSolid_typed ?_) ?_ fun _ => .absent)
    · rintro x ⟨⟩
      decide
    · exact hsolid
  | cons argument rest =>
    have hplain := h.arguments
    rw [harguments] at hplain
    have harguments := (@spells_arguments _
      (": ".toList ++ field.type.text.toList ++ '\n' :: behind) (by simp) hplain).present
    refine .rule rfl (by decide) (.absent_seq (spells_name_seq h.name (@Spells.seq _ _ _ [] _ _
      harguments htyped (by decide) isSolid_typed) ?_ ?_) ?_ fun _ => .absent)
    · exact ⟨'(', _, rfl, rfl⟩
    · rintro x ⟨⟩
      decide
    · exact (isSolid_name h.name).append _

/-- A field without arguments is spelled in an input, too. -/
theorem spells_text_input (h : field.IsPlain) (hnone : field.arguments = []) :
    Spells (.rule .inputValueDefinition) field.text.toList ('\n' :: behind) := by
  rw [toList_text h.directive, hnone]
  refine spells_inputValue h.name h.type ?_
  rintro x ⟨⟩
  decide

end FieldLine

section Lines

/-- Whether a character may stand in the line of a field. -/
def isLineCharacter (c : Char) : Bool :=
  TypeRef.isTypeCharacter c || ['(', ')', ':', ',', ' '].contains c

theorem isLineCharacter_of_isTypeCharacter {c : Char} (hc : TypeRef.isTypeCharacter c) :
    isLineCharacter c := by
  rw [isLineCharacter, hc, Bool.true_or]

theorem isLineCharacter_of_identifier {name : String} (h : isIdentifier name) :
    ∀ c ∈ name.toList, isLineCharacter c := fun c hc =>
  isLineCharacter_of_isTypeCharacter (by
    rw [TypeRef.isTypeCharacter, isNamePart_of_mem h c hc, Bool.true_or])

theorem isLineCharacter_of_type {type : TypeRef} (h : type.IsNamed) :
    ∀ c ∈ type.text.toList, isLineCharacter c := fun c hc =>
  isLineCharacter_of_isTypeCharacter (TypeRef.text_isTypeCharacter h c hc)

theorem mem_argumentText {arguments : List (String × TypeRef)}
    (h : ∀ argument ∈ arguments, isIdentifier argument.1 ∧ argument.2.IsNamed) :
    ∀ c ∈ FieldLine.argumentText arguments, isLineCharacter c := by
  induction arguments with
  | nil => simp [FieldLine.argumentText]
  | cons argument rest ih =>
    obtain ⟨hargument, hrest⟩ := List.forall_mem_cons.mp h
    have hfirst : ∀ c ∈ argument.1.toList ++ (": ".toList ++ argument.2.text.toList),
        isLineCharacter c := by
      simp only [List.forall_mem_append]
      exact ⟨isLineCharacter_of_identifier hargument.1, by decide,
        isLineCharacter_of_type hargument.2⟩
    cases rest with
    | nil => simpa [FieldLine.argumentText] using hfirst
    | cons next rest =>
      have hmore := ih hrest
      simp only [FieldLine.argumentText, List.map_cons, List.intercalate_cons_cons,
        List.forall_mem_append] at hfirst hmore ⊢
      exact ⟨⟨hfirst, by decide⟩, hmore⟩

variable {field : FieldLine}

theorem text_isLineCharacter (h : field.IsPlain) : ∀ c ∈ field.text.toList, isLineCharacter c := by
  rw [FieldLine.toList_text h.directive]
  have htype := isLineCharacter_of_type h.type
  have hname := isLineCharacter_of_identifier h.name
  have harguments := mem_argumentText h.arguments
  by_cases hempty : field.arguments.isEmpty
  · simp only [hempty, if_true, List.nil_append, List.forall_mem_append]
    exact ⟨hname, by decide, htype⟩
  · simp only [hempty, Bool.false_eq_true, if_false, List.forall_mem_append, List.forall_mem_cons]
    exact ⟨hname, ⟨by decide, harguments, by decide⟩, by decide, htype⟩

/-- A field is written as one line. -/
theorem isBodyLine_text (h : field.IsPlain) : IsBodyLine field.text.toList where
  first := by
    rw [FieldLine.toList_text h.directive]
    cases hname : field.name.toList with
    | nil =>
      have := h.name
      rw [isIdentifier, hname] at this
      cases this
    | cons c rest =>
      refine ⟨c, _, rfl, not_isBlank_of_isNamePart (isNamePart_of_mem h.name c ?_)⟩
      rw [hname]
      exact List.mem_cons_self
  last c hc := by
    obtain ⟨x, rest, htype, -⟩ := TypeRef.isSolid_text h.type
    have hlast : field.type.text.toList.getLast? = some c := by
      rw [FieldLine.toList_text h.directive, ← List.append_assoc, ← List.append_assoc,
        List.getLast?_append, htype, List.getLast?_cons] at hc
      rw [htype, List.getLast?_cons]
      simpa using hc
    exact TypeRef.not_isBlank_of_isTypeCharacter
      (TypeRef.text_isTypeCharacter h.type c (List.mem_of_getLast? hlast))
  feed hmem := by
    have := text_isLineCharacter h _ hmem
    revert this
    decide
  carriage hmem := by
    have := text_isLineCharacter h _ hmem
    revert this
    decide

theorem isSolid_joinLines {lines : List (List Char)} (hne : lines ≠ [])
    (h : ∀ line ∈ lines, IsSolid line) : IsSolid (joinLines lines) := by
  cases lines with
  | nil => exact absurd rfl hne
  | cons line rest =>
    have hline := h line List.mem_cons_self
    cases rest with
    | nil => simpa [joinLines] using hline
    | cons next rest =>
      simp only [joinLines, List.intercalate_cons_cons, List.append_assoc]
      exact hline.append _

/-- Lines that are fields one by one are fields together. -/
theorem spells_joinLines {r : Rule} {lines : List (List Char)} (hne : lines ≠ [])
    (hsolid : ∀ line ∈ lines, IsSolid line)
    (h : ∀ line ∈ lines, ∀ behind, Spells (.rule r) line ('\n' :: behind)) (behind : List Char) :
    Spells (oneOrMore (.rule r)) (joinLines lines) ('\n' :: behind) := by
  induction lines with
  | nil => exact absurd rfl hne
  | cons line rest ih =>
    obtain ⟨hsolid', hrest⟩ := List.forall_mem_cons.mp hsolid
    obtain ⟨hline, hlines⟩ := List.forall_mem_cons.mp h
    cases rest with
    | nil => simpa [joinLines] using (hline behind).once
    | cons next rest =>
      have hmore := ih (by simp) hrest hlines
      have hjoin : joinLines (line :: next :: rest) =
          line ++ (lineGap ++ joinLines (next :: rest)) := by
        simp only [joinLines, List.intercalate_cons_cons, List.append_assoc]
      rw [hjoin]
      exact (hline _).once.oneOrMore hmore (by decide) (isSolid_joinLines (by simp) hrest)

/-- Plain fields may stand in a root type. -/
theorem areFields_text {fields : List FieldLine} (hne : fields ≠ [])
    (h : ∀ field ∈ fields, field.IsPlain) :
    AreFields ((fields.map FieldLine.text).map String.toList) := by
  have hall : ∀ {p : List Char → Prop}, (∀ field : FieldLine, field.IsPlain → p field.text.toList) →
      ∀ line ∈ (fields.map FieldLine.text).map String.toList, p line := by
    intro p hp line hline
    rw [List.map_map] at hline
    obtain ⟨field, hfield, rfl⟩ := List.mem_map.mp hline
    exact hp field (h field hfield)
  have hlines : (fields.map FieldLine.text).map String.toList ≠ [] := by simpa using hne
  have hsolid := hall fun field => FieldLine.isSolid_text
  exact ⟨hall fun field => isBodyLine_text, isSolid_joinLines hlines hsolid,
    spells_joinLines hlines hsolid (hall fun field hfield behind => FieldLine.spells_text hfield)⟩

/-- A block of plain fields is a definition. -/
structure Block.IsPlain (block : Block) : Prop where
  /-- Its name is an identifier. -/
  name : isIdentifier block.name
  /-- It is no root type. -/
  root : block.kind = .type → block.name ≠ "Query" ∧ block.name ≠ "Mutation"
  /-- It has fields. -/
  ne_nil : block.fields ≠ []
  /-- Its fields are plain. -/
  fields : ∀ field ∈ block.fields, field.IsPlain
  /-- The fields of an input take no arguments. -/
  arguments : block.kind = .input → ∀ field ∈ block.fields, field.arguments = []

theorem isDefinition_write {kind : BlockKind} {name fields : List Char}
    (hname : isIdentifierText name)
    (hroot : kind = .type → name ≠ "Query".toList ∧ name ≠ "Mutation".toList)
    (hfields : ∀ behind, Spells (oneOrMore (.rule kind.fieldRule)) fields ('\n' :: behind))
    (hsolid : IsSolid fields) (hreturns : ReturnsEndLines fields) :
    IsDefinition (kind.write name fields) where
  kept := isKept_write
  solid := isSolid_write
  returns := returnsEndLines_write hname hreturns
  reads offset behind := by
    obtain ⟨d, ts, t, -, hnumbers, htree, hreads⟩ :=
      reads_block hname (hfields ('\x7d' :: '\n' :: behind)) hsolid offset
    refine ⟨_, t, hreads, rfl, ?_, checkDefinition_of_block htree hnumbers⟩
    cases kind with
    | input => exact rootKind?_of_input htree
    | type => rw [rootKind?_of_type htree, if_neg (hroot rfl).1, if_neg (hroot rfl).2]

theorem isDefinition_text {block : Block} (h : block.IsPlain) : IsDefinition block.text.toList := by
  have hne : (block.fields.map FieldLine.text).map String.toList ≠ [] := by simpa using h.ne_nil
  have hfields := areFields_text h.ne_nil h.fields
  have hreturns :
      ReturnsEndLines (joinLines ((block.fields.map FieldLine.text).map String.toList)) :=
    returnsEndLines_of_not_mem
      (not_mem_joinLines (by decide) fun line hline => (hfields.line line hline).carriage)
  have hspells : ∀ behind, Spells (oneOrMore (.rule block.kind.fieldRule))
      (joinLines ((block.fields.map FieldLine.text).map String.toList)) ('\n' :: behind) := by
    cases hkind : block.kind with
    | type => exact hfields.reads
    | input =>
      refine spells_joinLines hne ?_ ?_
      · intro line hline
        rw [List.map_map] at hline
        obtain ⟨field, hfield, rfl⟩ := List.mem_map.mp hline
        exact FieldLine.isSolid_text (h.fields field hfield)
      · intro line hline behind
        rw [List.map_map] at hline
        obtain ⟨field, hfield, rfl⟩ := List.mem_map.mp hline
        exact FieldLine.spells_text_input (h.fields field hfield) (h.arguments hkind field hfield)
  rw [Block.text, toList_renderBlock _ _ (by simpa using h.ne_nil)]
  refine isDefinition_write h.name (fun hkind => ?_) hspells hfields.solid hreturns
  obtain ⟨hquery, hmutation⟩ := h.root hkind
  exact ⟨fun heq => hquery (String.toList_inj.mp heq),
    fun heq => hmutation (String.toList_inj.mp heq)⟩

end Lines

end Sdl
end EntitySdl
