import EntitySdl.Proofs.Blocks

/-! # Fields outside of types

Behind a definition stands another one, or the text ends.  Where a field or a closing
brace stands instead, the text is no document: what begins as a definition there takes
keywords and a name from the name of the field, but it cannot go on behind that.
-/
namespace EntitySdl
namespace Sdl
namespace Grammar

open Name Text Cursor Peg

/-- Whether a character stands inside definitions only. -/
def isInner (c : Char) : Bool := c == ':' || c == '(' || c == '\x7d'

/-- Behind blanks and comments a text goes on with such a character. -/
def GoesOnInside (rest : List Char) : Prop :=
  ∃ x, (behindIgnored false 0 rest).rest.head? = some x ∧ isInner x

/-- A part of a name, or nothing, stands before a character that stands inside definitions
only. -/
inductive IsStray : Cursor → Prop where
  /-- What is left of the name stands at the place. -/
  | name {c : Cursor} {word rest : List Char} (hrest : c.rest = word ++ rest)
      (hword : ∀ x ∈ word, isNamePart x)
      (hend : ∀ x, rest.head? = some x → isNamePart x = false)
      (hinside : GoesOnInside rest) : IsStray c
  /-- A description comes first. -/
  | described {c m : Cursor} {ts} (h : sdl.Matches .spaced (.rule .string) c m ts)
      (hm : IsStray (m.skip .spaced)) : IsStray c

/-- Whether none of the heads stands where something is stray. -/
def areShut (h : Heads) : Bool :=
  !h.names && !h.all && h.words.all fun word =>
    !word.head?.any fun x => isNamePart x || isInner x || x == '"'

/-- Whether nothing is read for an expression where something is stray. -/
def isShut (e : Peg Rule) : Bool := !mayBeEmpty mayBeEmptyRule e && areShut (heads e)

/-- Whether a rule may be tried where a definition begins. -/
def isOuterRule : Rule → Bool
  | .definition | .schemaDefinition | .typeDefinition | .scalarType | .objectType
  | .implementsInterfaces | .interfaceType | .unionType | .enumType | .inputObjectType | .extend
  | .directiveDefinition | .name | .string => true
  | _ => false

/-- Whether an expression takes nothing but keywords, names and descriptions where
something is stray. -/
def isOuter : Peg Rule → Bool
  | .text chars => isShut (.text chars) || (!chars.isEmpty && chars.all isNamePart)
  | .rule r => isShut (.rule r) || isOuterRule r
  | .seq first second => isOuter first && (isShut first || isOuter second)
  | .choice first second => isOuter first && isOuter second
  | .optional inner | .many inner => isOuter inner
  | .charWhere _ | .finish | .never _ => false

/-- Whether a goal is such an expression. -/
def goalIsOuter : Goal Rule → Bool
  | .one e | .more e => isOuter e

theorem isOuter_body {r : Rule} (hr : r.isLexeme = false) (houter : isOuterRule r) :
    isOuter (body r) := by
  have hall : ∀ r : Rule, r.isLexeme = false → isOuterRule r → isOuter (body r) :=
    Rule.forall_iff.mpr (by decide +kernel)
  exact hall r hr houter

section Strays

variable {goal : Goal Rule} {e : Peg Rule} {c d m : Cursor} {ts us : List (Tree Rule)}

theorem not_isNamePart_of_isInner {x : Char} (h : isInner x) : isNamePart x = false := by
  rw [isInner, Bool.or_eq_true, Bool.or_eq_true, beq_iff_eq, beq_iff_eq, beq_iff_eq] at h
  rcases h with (rfl | rfl) | rfl <;> decide

theorem skip_of_string (h : sdl.Matches .spaced (.rule .string) c d ts) :
    c.skip .spaced = c ∧ ∃ rest, c.rest = '"' :: rest := by
  rcases string_begins h with ⟨word, hword, -, rest, hrest⟩ | ⟨hnames, -⟩ | ⟨hall, -⟩
  · cases List.mem_singleton.mp hword
    refine ⟨skip_eq_self_iff.mpr ?_, rest, hrest.symm⟩
    rw [← hrest]
    rfl
  · cases hnames
  · cases hall

theorem GoesOnInside.skip {rest : List Char} (h : GoesOnInside rest) (hrest : c.rest = rest) :
    ∃ x, (c.skip .spaced).rest.head? = some x ∧ isInner x := by
  rwa [skip_rest c 0, hrest]

/-- What is stray is so behind blanks and comments. -/
theorem IsStray.skip (h : IsStray c) : IsStray (c.skip .spaced) := by
  cases h with
  | @name _ word rest hrest hword hend hinside =>
    cases word with
    | nil =>
      obtain ⟨x, hx, hinner⟩ := hinside.skip hrest
      refine @IsStray.name _ [] _ rfl (by simp) ?_ ⟨x, ?_, hinner⟩
      · intro y hy
        cases hx.symm.trans hy
        exact not_isNamePart_of_isInner hinner
      · rwa [← skip_rest, skip_skip]
    | cons x word =>
      have hsolid := isSolidStart_of_isNamePart (hword x List.mem_cons_self) (word ++ rest)
      rw [skip_eq_self_iff.mpr (by rw [hrest]; exact hsolid)]
      exact .name hrest hword hend hinside
  | described h hm =>
    rw [(skip_of_string h).1]
    exact .described h hm

/-- At a token, something stray begins with a part of a name, with a character that stands
inside definitions only, or with a description. -/
theorem IsStray.exists_head (h : IsStray c) (hc : c.skip .spaced = c) : ∃ x rest,
    c.rest = x :: rest ∧ (isNamePart x ∨ isInner x ∨ (x = '"' ∧ ∃ m ts,
      sdl.Matches .spaced (.rule .string) c m ts ∧ IsStray (m.skip .spaced))) := by
  cases h with
  | @name _ word rest hrest hword hend hinside =>
    cases word with
    | nil =>
      obtain ⟨x, hx, hinner⟩ := hinside.skip hrest
      rw [hc] at hx
      obtain ⟨behind, hbehind⟩ := List.head?_eq_some_iff.mp hx
      exact ⟨x, behind, hbehind, .inr (.inl hinner)⟩
    | cons x word => exact ⟨x, word ++ rest, hrest, .inl (hword x List.mem_cons_self)⟩
  | described h hm =>
    obtain ⟨-, rest, hrest⟩ := skip_of_string h
    exact ⟨'"', rest, hrest, .inr (.inr ⟨rfl, _, _, h, hm⟩)⟩

theorem IsStray.not_begin (h : IsStray c) (hc : c.skip .spaced = c) {hs : Heads}
    (hshut : areShut hs) : ¬ hs.Begin c.rest := by
  obtain ⟨x, rest, hrest, hx⟩ := h.exists_head hc
  simp only [areShut, Bool.and_eq_true, Bool.not_eq_true', List.all_eq_true] at hshut
  obtain ⟨⟨hnames, hall⟩, hwords⟩ := hshut
  rintro (⟨word, hword, hne, behind, hbehind⟩ | ⟨hnames', -⟩ | ⟨hall', -⟩)
  · obtain ⟨y, word, rfl⟩ := List.exists_cons_of_ne_nil hne
    rw [hrest, List.cons_append] at hbehind
    have hshut := hwords _ hword
    rw [List.head?_cons, Option.any_some, (List.cons.inj hbehind).1] at hshut
    rcases hx with hx | hx | ⟨rfl, -⟩ <;> simp_all
  · rw [hnames] at hnames'
    cases hnames'
  · rw [hall] at hall'
    cases hall'

/-- Nothing is read there for an expression with other heads. -/
theorem IsStray.not_reads_of_isShut (hstray : IsStray c) (hc : c.skip .spaced = c)
    (hshut : isShut e) : ¬ Reads (.one e) c d ts := by
  intro h
  rw [isShut, Bool.and_eq_true, Bool.not_eq_true'] at hshut
  exact hstray.not_begin hc hshut.2 (Reads.begins h hc hshut.1)

/-- A word of parts of names is taken from the name. -/
theorem IsStray.of_text {chars : List Char} (hstray : IsStray c) (hne : chars ≠ [])
    (hchars : ∀ x ∈ chars, isNamePart x) (hrest : c.rest = chars ++ d.rest) : IsStray d := by
  cases hstray with
  | @name _ word rest hname hword hend hinside =>
    rcases List.append_eq_append_iff.mp (hname.symm.trans hrest) with
      ⟨more, rfl, hmore⟩ | ⟨more, rfl, hmore⟩
    · cases more with
      | nil =>
        refine @IsStray.name _ [] _ hmore.symm (by simp) hend hinside
      | cons x more =>
        -- the word would go on behind the name
        have hx := hend x (by rw [hmore]; rfl)
        rw [hchars x (List.mem_append_right _ List.mem_cons_self)] at hx
        cases hx
    · exact .name hmore (fun x hx => hword x (List.mem_append_right _ hx)) hend hinside
  | described h hm =>
    obtain ⟨-, rest, hquote⟩ := skip_of_string h
    obtain ⟨x, chars, rfl⟩ := List.exists_cons_of_ne_nil hne
    rw [hquote, List.cons_append] at hrest
    have hx := hchars x List.mem_cons_self
    rw [← (List.cons.inj hrest).1] at hx
    cases hx

/-- A name takes all that is left. -/
theorem IsStray.of_name (hstray : IsStray c)
    (h : sdl.Matches .spaced (.rule .name) c d ts) : IsStray d := by
  obtain ⟨name, hname, hrest, -, -, -⟩ := matches_name_iff.mp h
  refine hstray.of_text ?_ (isNamePart_of_mem_name hname) hrest
  rintro rfl
  cases hname

/-- A description is the one before the name. -/
theorem IsStray.of_string (hstray : IsStray c) (hc : c.skip .spaced = c)
    (h : sdl.Matches .spaced (.rule .string) c d ts) : IsStray (d.skip .spaced) := by
  obtain ⟨x, rest, hrest, hx⟩ := hstray.exists_head hc
  obtain ⟨-, rest', hquote⟩ := skip_of_string h
  rw [hquote] at hrest
  rw [← (List.cons.inj hrest).1] at hx
  rcases hx with hx | hx | ⟨-, m, us, h', hm⟩
  · cases hx
  · cases hx
  · obtain ⟨rfl, -⟩ := h.unique h'
    exact hm

/-- **Where something is stray, reading leaves something stray.** -/
theorem IsStray.of_reads (h : Reads goal c d ts) (hgoal : goalIsOuter goal)
    (hstart : Starts goal c) (hstray : IsStray (c.skip .spaced)) : IsStray (d.skip .spaced) := by
  induction h using Reads.induct with
  | @text chars c d hrest hoffset =>
    rw [hstart] at hstray
    rw [goalIsOuter, isOuter, Bool.or_eq_true, Bool.and_eq_true, Bool.not_eq_true',
      List.isEmpty_eq_false_iff, List.all_eq_true] at hgoal
    rcases hgoal with hshut | ⟨hne, hchars⟩
    · exact absurd (.text hrest hoffset) (hstray.not_reads_of_isShut hstart hshut)
    · exact (hstray.of_text hne hchars hrest).skip
  | charWhere | finish | never => cases hgoal
  | @lexeme r c d ts hr h =>
    rw [hstart] at hstray
    rw [goalIsOuter, isOuter, Bool.or_eq_true] at hgoal
    rcases hgoal with hshut | houter
    · exact absurd (.token hr h) (hstray.not_reads_of_isShut hstart hshut)
    · cases r with
      | name => exact (hstray.of_name h).skip
      | string => exact hstray.of_string hstart h
      | typeRef | number | blockStringContent | stringContent | enumValue | directiveLocation
      | operationType => cases houter
      | _ => cases hr
  | @rule r c d ts hr h ih =>
    rw [goalIsOuter, isOuter, Bool.or_eq_true] at hgoal
    rcases hgoal with hshut | houter
    · rw [hstart] at hstray
      exact absurd (Reads.rule hr h) (hstray.not_reads_of_isShut hstart hshut)
    · exact ih (isOuter_body hr houter) hstart hstray
  | @seq first second c m d ts us hfirst hsecond ihfirst ihsecond =>
    rw [goalIsOuter, isOuter, Bool.and_eq_true, Bool.or_eq_true] at hgoal
    rcases hgoal.2 with hshut | houter
    · rw [hstart] at hstray
      exact absurd hfirst (hstray.not_reads_of_isShut hstart hshut)
    · exact ihsecond houter (skip_skip m) (by rw [skip_skip]; exact ihfirst hgoal.1 hstart hstray)
  | left _ ih =>
    rw [goalIsOuter, isOuter, Bool.and_eq_true] at hgoal
    exact ih hgoal.1 hstart hstray
  | right _ ih =>
    rw [goalIsOuter, isOuter, Bool.and_eq_true] at hgoal
    exact ih hgoal.2 hstart hstray
  | present _ ih => exact ih hgoal hstart hstray
  | absent | none | stop => exact hstray
  | some _ _ ihfirst ihmore => exact ihmore hgoal trivial (ihfirst hgoal hstart hstray)
  | @again _ c m _ _ _ _ _ ihfirst ihmore =>
    exact ihmore hgoal trivial (ihfirst hgoal (skip_skip c) (by rwa [skip_skip]))

/-- **Nothing stray is a row of definitions.** -/
theorem IsStray.not_definitions (hstray : IsStray c) (hc : c.skip .spaced = c) :
    ¬ Definitions c ts := by
  intro h
  induction h with
  | done hend =>
    obtain ⟨x, rest, hrest, -⟩ := hstray.exists_head hc
    rw [hend] at hrest
    cases hrest
  | @next c d t ts h _ ih =>
    rw [← hc] at hstray
    exact ih (IsStray.of_reads h rfl hc hstray) (skip_skip d)

/-- A closing brace is stray. -/
theorem isStray_of_brace {rest : List Char} (h : c.rest = '\x7d' :: rest) : IsStray c := by
  refine @IsStray.name c [] ('\x7d' :: rest) h (by simp) ?_ ⟨'\x7d', rfl, rfl⟩
  rintro x ⟨⟩
  decide

/-- The name of a field is stray, with the arguments or the colon behind it. -/
theorem isStray_of_name (h : Reads (.one (seqOf [.rule .name,
    .optional (.rule .argumentsDefinition), word ":", .rule .typeRef, directives])) c d ts) :
    IsStray c := by
  obtain ⟨m, _, _, hname, hbehind, -⟩ := reads_seq_iff.mp h
  obtain ⟨n, _, _, harguments, hcolon, -⟩ := reads_seq_iff.mp hbehind
  obtain ⟨name, hidentifier, hrest, -, hend, -⟩ :=
    matches_name_iff.mp (matches_of_reads_lexeme rfl hname)
  have hinside : ∃ x, (m.skip .spaced).rest.head? = some x ∧ isInner x := by
    cases harguments with
    | present h =>
      rcases Reads.begins h (skip_skip m) rfl with ⟨word, hword, -, rest, hrest⟩ | ⟨hnames, -⟩ |
        ⟨hall, -⟩
      · cases List.mem_singleton.mp hword
        exact ⟨'(', by rw [← hrest]; rfl, rfl⟩
      · cases hnames
      · cases hall
    | absent =>
      obtain ⟨_, _, _, hword, -, -⟩ := reads_seq_iff.mp hcolon
      rw [skip_skip] at hword
      exact ⟨':', by rw [(reads_text_iff.mp hword).1]; rfl, rfl⟩
  rw [skip_rest m 0] at hinside
  exact .name hrest (isNamePart_of_mem_name hidentifier) hend hinside

/-- **A field is stray.** -/
theorem isStray_of_field (h : Reads (.one (.rule .fieldDefinition)) c d ts)
    (hc : c.skip .spaced = c) : IsStray c := by
  obtain ⟨us, h, -⟩ := (reads_rule_iff rfl).mp h
  obtain ⟨m, _, _, hdescription, hname, -⟩ := reads_seq_iff.mp h
  cases hdescription with
  | present h => exact .described (matches_of_reads_lexeme rfl h) (isStray_of_name hname)
  | absent =>
    rw [hc] at hname
    exact isStray_of_name hname

end Strays

end Grammar
end Sdl
end EntitySdl
