import EntitySdl.Proofs.Reading

/-! # How expressions begin

What is read for an expression begins with one of a few texts or with a name.
Heads are such beginnings; two sets of heads are apart when no text begins with a
head of each.
-/
namespace EntitySdl
namespace Sdl

open Name Text

/-- Beginnings of texts. -/
structure Heads where
  /-- The fixed texts. -/
  words : List (List Char) := []
  /-- Whether every name is a beginning. -/
  names : Bool := false
  /-- Whether every character is a beginning. -/
  all : Bool := false

namespace Heads

/-- A text begins with one of the heads. -/
def Begin (h : Heads) (cs : List Char) : Prop :=
  (∃ word ∈ h.words, word ≠ [] ∧ word <+: cs) ∨
    (h.names ∧ ∃ c rest, cs = c :: rest ∧ isNameStart c) ∨ (h.all ∧ cs ≠ [])

/-- The heads of two sets. -/
def union (h k : Heads) : Heads where
  words := h.words ++ k.words
  names := h.names || k.names
  all := h.all || k.all

/-- Whether a word begins a name. -/
def beginsName : List Char → Bool
  | [] => false
  | c :: _ => isNameStart c

/-- Whether no text begins with a head of each set. -/
def apart (h k : Heads) : Bool :=
  !h.all && !k.all && !(h.names && k.names) &&
    h.words.all (fun word => k.words.all fun other =>
      !word.isPrefixOf other && !other.isPrefixOf word) &&
    (!h.names || k.words.all fun word => !beginsName word) &&
    (!k.names || h.words.all fun word => !beginsName word)

/-- Whether every text that begins with a head of the first set begins with one
of the second. -/
def within (h k : Heads) : Bool :=
  k.all || (!h.all && (!h.names || k.names) &&
    h.words.all fun word => word.isEmpty || k.words.contains word || (k.names && beginsName word))

variable {h k : Heads} {cs : List Char}

theorem not_begin_nil : ¬ h.Begin [] := by
  rintro (⟨word, -, hne, hpre⟩ | ⟨-, c, rest, hcs, -⟩ | ⟨-, hne⟩)
  · exact hne (List.prefix_nil.mp hpre)
  · cases hcs
  · exact hne rfl

theorem begin_union : (h.union k).Begin cs ↔ h.Begin cs ∨ k.Begin cs := by
  simp only [Begin, union, List.mem_append, Bool.or_eq_true]
  constructor
  · rintro (⟨word, hword | hword, hrest⟩ | ⟨hname | hname, hrest⟩ | ⟨hall | hall, hrest⟩)
    · exact .inl (.inl ⟨word, hword, hrest⟩)
    · exact .inr (.inl ⟨word, hword, hrest⟩)
    · exact .inl (.inr (.inl ⟨hname, hrest⟩))
    · exact .inr (.inr (.inl ⟨hname, hrest⟩))
    · exact .inl (.inr (.inr ⟨hall, hrest⟩))
    · exact .inr (.inr (.inr ⟨hall, hrest⟩))
  · rintro ((⟨word, hword, hrest⟩ | ⟨hname, hrest⟩ | ⟨hall, hrest⟩) |
      (⟨word, hword, hrest⟩ | ⟨hname, hrest⟩ | ⟨hall, hrest⟩))
    · exact .inl ⟨word, .inl hword, hrest⟩
    · exact .inr (.inl ⟨.inl hname, hrest⟩)
    · exact .inr (.inr ⟨.inl hall, hrest⟩)
    · exact .inl ⟨word, .inr hword, hrest⟩
    · exact .inr (.inl ⟨.inr hname, hrest⟩)
    · exact .inr (.inr ⟨.inr hall, hrest⟩)

theorem beginsName_of_word {word : List Char} (hne : word ≠ []) (hword : word <+: cs)
    {c : Char} {rest : List Char} (hcs : cs = c :: rest) : beginsName word = isNameStart c := by
  cases word with
  | nil => exact absurd rfl hne
  | cons d word =>
    obtain ⟨more, hmore⟩ := hword
    rw [hcs, List.cons_append, List.cons.injEq] at hmore
    rw [beginsName, hmore.1]

theorem not_begin_of_apart (hapart : apart h k) (hbegin : h.Begin cs) : ¬ k.Begin cs := by
  simp only [apart, Bool.and_eq_true, Bool.not_eq_true', List.all_eq_true, Bool.or_eq_true,
    Bool.and_eq_false_iff] at hapart
  obtain ⟨⟨⟨⟨⟨hall, hall'⟩, hnames⟩, hwords⟩, hleft⟩, hright⟩ := hapart
  intro hbegin'
  rcases hbegin with ⟨word, hword, hne, hpre⟩ | ⟨hname, c, rest, hcs, hc⟩ | ⟨h', -⟩
  · rcases hbegin' with ⟨other, hother, hne', hpre'⟩ | ⟨hname', c, rest, hcs, hc⟩ | ⟨h', -⟩
    · obtain ⟨hword', hother'⟩ := hwords word hword other hother
      rcases List.prefix_or_prefix_of_prefix hpre hpre' with hle | hle
      · rw [List.isPrefixOf_iff_prefix.mpr hle] at hword'
        cases hword'
      · rw [List.isPrefixOf_iff_prefix.mpr hle] at hother'
        cases hother'
    · have := hright.resolve_left (by simp [hname']) word hword
      rw [beginsName_of_word hne hpre hcs, hc] at this
      cases this
    · rw [hall'] at h'
      cases h'
  · rcases hbegin' with ⟨other, hother, hne', hpre'⟩ | ⟨hname', -⟩ | ⟨h', -⟩
    · have := hleft.resolve_left (by simp [hname]) other hother
      rw [beginsName_of_word hne' hpre' hcs, hc] at this
      cases this
    · simp [hname, hname'] at hnames
    · rw [hall'] at h'
      cases h'
  · rw [hall] at h'
    cases h'

theorem begin_of_within (hwithin : within h k) (hbegin : h.Begin cs) : k.Begin cs := by
  simp only [within, Bool.or_eq_true, Bool.and_eq_true, Bool.not_eq_true', List.all_eq_true]
    at hwithin
  have hne : cs ≠ [] := by
    rintro rfl
    exact not_begin_nil hbegin
  rcases hwithin with hall | ⟨⟨hall, hnames⟩, hwords⟩
  · exact .inr (.inr ⟨hall, hne⟩)
  · rcases hbegin with ⟨word, hword, hne', hpre⟩ | ⟨hname, hrest⟩ | ⟨h', -⟩
    · rcases hwords word hword with (hempty | hmem) | ⟨hname, hstart⟩
      · exact absurd (List.isEmpty_iff.mp hempty) hne'
      · exact .inl ⟨word, List.contains_iff_mem.mp hmem, hne', hpre⟩
      · obtain ⟨c, rest, rfl⟩ := List.exists_cons_of_ne_nil hne
        rw [beginsName_of_word hne' hpre rfl] at hstart
        exact .inr (.inl ⟨hname, c, rest, rfl, hstart⟩)
    · exact .inr (.inl ⟨hnames.resolve_left (by simp [hname]), hrest⟩)
    · rw [hall] at h'
      cases h'

end Heads
namespace Grammar

open Peg

/-- How lexemes begin. -/
def lexemeHeads : Rule → Heads
  | .name | .enumValue => { names := true }
  | .typeRef => { words := [['[']], names := true }
  | .number => { words := "-0123456789".toList.map ([·]) }
  | .string => { words := [['"']] }
  | .operationType => { words := ["query", "mutation", "subscription"].map String.toList }
  | .directiveLocation =>
    { words :=
      ["QUERY", "MUTATION", "SUBSCRIPTION", "FIELD_DEFINITION", "FIELD", "FRAGMENT_DEFINITION",
       "FRAGMENT_SPREAD", "INLINE_FRAGMENT", "VARIABLE_DEFINITION", "SCHEMA", "SCALAR", "OBJECT",
       "ARGUMENT_DEFINITION", "INTERFACE", "UNION", "ENUM_VALUE", "ENUM", "INPUT_OBJECT",
       "INPUT_FIELD_DEFINITION"].map String.toList }
  | _ => { all := true }

/-- How an expression begins, given how the rules do. -/
def headsWith (table : Rule → Heads) : Peg Rule → Heads
  | .text chars => { words := [chars] }
  | .charWhere _ => { all := true }
  | .rule r => table r
  | .seq first second =>
    (headsWith table first).union
      (if mayBeEmpty mayBeEmptyRule first then headsWith table second else {})
  | .choice first second => (headsWith table first).union (headsWith table second)
  | .optional inner | .many inner => headsWith table inner
  | .finish | .never _ => {}

/-- How a rule begins, through so many levels of rules. -/
def headsTo : Nat → Rule → Heads
  | 0, r => lexemeHeads r
  | levels + 1, r =>
    if r.isLexeme then lexemeHeads r else headsWith (headsTo levels) (body r)

/-- How an expression begins. -/
def heads (e : Peg Rule) : Heads := headsWith (headsTo 5) e

theorem heads_body_within {r : Rule} (hr : r.isLexeme = false) :
    (heads (body r)).within (heads (.rule r)) := by
  have hall : ∀ r, r.isLexeme = false → (heads (body r)).within (heads (.rule r)) :=
    Rule.forall_iff.mpr (by decide +kernel)
  exact hall r hr

theorem isAsciiDigit_mem {c : Char} (h : isAsciiDigit c) : c ∈ "0123456789".toList := by
  have hall : ∀ n < 58, 48 ≤ n → Char.ofNat n ∈ "0123456789".toList := by decide
  simp only [isAsciiDigit, decide_eq_true_eq, Char.le_def, UInt32.le_iff_toNat_le] at h
  have := hall c.toNat (Nat.lt_succ_of_le h.2) h.1
  rwa [Char.ofNat_toNat] at this

section Lexemes

variable {mode : Mode} {c d : Cursor} {ts : List (Tree Rule)}

theorem exists_matches_of_firstOf {g : Grammar Rule} {es : List (Peg Rule)}
    (h : g.Matches mode (firstOf es) c d ts) : ∃ e ∈ es, g.Matches mode e c d ts := by
  induction es with
  | nil =>
    obtain ⟨x, hx, -⟩ := matches_charWhere_iff.mp h
    cases hx
  | cons e rest ih =>
    cases rest with
    | nil => exact ⟨e, List.mem_cons_self, h⟩
    | cons e' rest =>
      rcases matches_choice_iff.mp h with h | ⟨-, h⟩
      · exact ⟨e, List.mem_cons_self, h⟩
      · obtain ⟨e', he', h'⟩ := ih h
        exact ⟨e', List.mem_cons_of_mem _ he', h'⟩

theorem name_begins (h : sdl.Matches mode (.rule .name) c d ts) :
    ∃ x rest, c.rest = x :: rest ∧ isNameStart x := by
  obtain ⟨us, h, -⟩ := matches_rule_iff.mp h
  obtain ⟨m, us, vs, h, -, -⟩ := matches_seq_iff.mp h
  obtain ⟨x, hx, hrest, -⟩ := matches_charWhere_iff.mp h
  exact ⟨x, _, hrest, hx⟩

theorem begin_of_word {table : Heads} {chars : List Char} (hmem : chars ∈ table.words)
    (hne : chars ≠ []) (h : sdl.Matches mode (.text chars) c d ts) : table.Begin c.rest :=
  .inl ⟨chars, hmem, hne, _, (matches_text_iff.mp h).1.symm⟩

/-- A whole number begins with a minus sign or a digit. -/
theorem whole_begins (h : sdl.Matches .token whole c d ts) :
    (lexemeHeads .number).Begin c.rest := by
  have hdigit : ∀ {accepts : Char → Bool} {e ts} (m : Cursor), c.rest = m.rest →
      (∀ x, accepts x → isAsciiDigit x) →
      sdl.Matches .token (.seq (.charWhere accepts) e) m d ts →
        (lexemeHeads .number).Begin c.rest := by
    intro accepts e ts m hm haccepts h
    obtain ⟨_, _, _, h, -, -⟩ := matches_seq_iff.mp h
    obtain ⟨x, hx, hrest, -⟩ := matches_charWhere_iff.mp h
    refine .inl ⟨[x], ?_, by simp, _, (hm.trans hrest).symm⟩
    exact List.mem_map_of_mem (List.mem_cons_of_mem _ (isAsciiDigit_mem (haccepts x hx)))
  obtain ⟨m, us, vs, hsign, hdigits, -⟩ := matches_seq_iff.mp h
  rcases matches_optional_iff.mp hsign with hsign | ⟨-, rfl, -⟩
  · exact begin_of_word (by decide) (by decide) hsign
  · rcases matches_choice_iff.mp hdigits with hzero | ⟨-, hdigits⟩
    · exact begin_of_word (by decide) (by decide) hzero
    · exact hdigit m rfl (fun x hx => (Bool.and_eq_true _ _ ▸ hx).1) hdigits

theorem number_begins (h : sdl.Matches mode (.rule .number) c d ts) :
    (lexemeHeads .number).Begin c.rest := by
  obtain ⟨us, h, -⟩ := matches_rule_iff.mp h
  obtain ⟨m, _, _, h, -, -⟩ := matches_seq_iff.mp h
  rcases matches_choice_iff.mp h with h | ⟨-, h⟩
  · obtain ⟨_, _, _, h, -, -⟩ := matches_seq_iff.mp h
    exact whole_begins h
  · exact whole_begins h

theorem string_begins (h : sdl.Matches mode (.rule .string) c d ts) :
    (lexemeHeads .string).Begin c.rest := by
  obtain ⟨us, h, -⟩ := matches_rule_iff.mp h
  rcases matches_choice_iff.mp h with h | ⟨-, h⟩
  · obtain ⟨_, _, _, h, -, -⟩ := matches_seq_iff.mp h
    exact .inl ⟨['"'], by decide, by decide, ['"', '"'] ++ _, (matches_text_iff.mp h).1.symm⟩
  · obtain ⟨_, _, _, h, -, -⟩ := matches_seq_iff.mp h
    exact begin_of_word (by decide) (by decide) h

theorem typeRef_begins (h : sdl.Matches mode (.rule .typeRef) c d ts) :
    (lexemeHeads .typeRef).Begin c.rest := by
  obtain ⟨us, h, -⟩ := matches_rule_iff.mp h
  obtain ⟨m, _, _, h, -, -⟩ := matches_seq_iff.mp h
  rcases matches_choice_iff.mp h with h | ⟨-, h⟩
  · obtain ⟨x, rest, hrest, hx⟩ := name_begins h
    exact .inr (.inl ⟨rfl, x, rest, hrest, hx⟩)
  · obtain ⟨_, _, _, h, -, -⟩ := matches_seq_iff.mp h
    exact begin_of_word (by decide) (by decide) h

theorem enumValue_begins (h : sdl.Matches mode (.rule .enumValue) c d ts) :
    (lexemeHeads .enumValue).Begin c.rest := by
  obtain ⟨us, hbody, -⟩ := matches_rule_iff.mp h
  obtain ⟨m, _, _, hnever, hname, -⟩ := matches_seq_iff.mp hbody
  obtain ⟨-, rfl, -⟩ := matches_never_iff.mp hnever
  obtain ⟨x, rest, hrest, hx⟩ := name_begins hname
  exact .inr (.inl ⟨rfl, x, rest, hrest, hx⟩)

/-- A choice between words begins with one of them. -/
theorem begin_of_words {words : List String} {table : Heads}
    (hwords : table.words = words.map String.toList) (hne : ∀ word ∈ table.words, word ≠ [])
    (h : sdl.Matches mode (firstOf (words.map word)) c d ts) : table.Begin c.rest := by
  obtain ⟨e, he, h⟩ := exists_matches_of_firstOf h
  obtain ⟨word, hword, rfl⟩ := List.mem_map.mp he
  have hmem : word.toList ∈ table.words := by
    rw [hwords]
    exact List.mem_map_of_mem hword
  exact begin_of_word hmem (hne _ hmem) h

theorem directiveLocation_begins (h : sdl.Matches mode (.rule .directiveLocation) c d ts) :
    (lexemeHeads .directiveLocation).Begin c.rest := by
  obtain ⟨us, h, -⟩ := matches_rule_iff.mp h
  exact begin_of_words rfl (by decide) h

theorem operationType_begins (h : sdl.Matches mode (.rule .operationType) c d ts) :
    (lexemeHeads .operationType).Begin c.rest := by
  obtain ⟨us, h, -⟩ := matches_rule_iff.mp h
  exact @begin_of_words _ _ _ _ ["query", "mutation", "subscription"] _ rfl (by decide) h

theorem lexeme_begins {r : Rule} (hr : r.isLexeme) (h : sdl.Matches .spaced (.rule r) c d ts) :
    (lexemeHeads r).Begin c.rest ∨ (mayBeEmptyRule r ∧ d = c) := by
  -- what may begin in every way is empty at the end of the text
  have hall : (lexemeHeads r).all → mayBeEmptyRule r →
      (lexemeHeads r).Begin c.rest ∨ (mayBeEmptyRule r ∧ d = c) := by
    intro hall hempty
    by_cases hrest : c.rest = []
    · refine .inr ⟨hempty, (Cursor.Reaches.eq_of_length (Cursor.Reaches.refl c) h.reaches ?_).symm⟩
      have := h.reaches.length_le
      simp_all
    · exact .inl (.inr (.inr ⟨hall, hrest⟩))
  cases r with
  | name =>
    obtain ⟨x, rest, hrest, hx⟩ := name_begins h
    exact .inl (.inr (.inl ⟨rfl, x, rest, hrest, hx⟩))
  | typeRef => exact .inl (typeRef_begins h)
  | number => exact .inl (number_begins h)
  | string => exact .inl (string_begins h)
  | enumValue => exact .inl (enumValue_begins h)
  | directiveLocation => exact .inl (directiveLocation_begins h)
  | operationType => exact .inl (operationType_begins h)
  | blockStringContent | stringContent => exact hall rfl rfl
  | _ => cases hr

end Lexemes

/-- How a goal begins. -/
def goalHeads : Goal Rule → Heads
  | .one e | .more e => heads e

/-- Whether a goal may be reached without taking a character. -/
def goalMayBeEmpty : Goal Rule → Bool
  | .one e => mayBeEmpty mayBeEmptyRule e
  | .more _ => true

/-- What is read begins with a head of the goal, or it is empty. -/
theorem Reads.goal_begins {goal : Goal Rule} {c d : Cursor} {ts : List (Tree Rule)}
    (h : Reads goal c d ts) (hc : c.skip .spaced = c) :
    (goalHeads goal).Begin c.rest ∨ (goalMayBeEmpty goal ∧ d = c) := by
  induction h using Reads.induct with
  | @text chars c d hrest hoffset =>
    by_cases hchars : chars = []
    · subst hchars
      refine .inr ⟨rfl, ?_⟩
      cases c
      cases d
      simp_all
    · exact .inl (.inl ⟨chars, by simp [goalHeads, heads, headsWith], hchars, d.rest, hrest.symm⟩)
  | charWhere hx hrest hoffset => exact .inl (.inr (.inr ⟨rfl, by simp [hrest]⟩))
  | @lexeme r c d ts hr h =>
    have hheads : goalHeads (.one (.rule r)) = lexemeHeads r := by
      rw [goalHeads, heads, headsWith, headsTo, if_pos hr]
    rw [hheads]
    exact lexeme_begins hr h
  | @rule r c d ts hr h ih =>
    rcases ih hc with hbegin | ⟨hempty, rfl⟩
    · exact .inl (Heads.begin_of_within (heads_body_within hr) hbegin)
    · refine .inr ⟨sdl_bounded.empties r ?_, rfl⟩
      rwa [sdl_body]
  | @seq first second c m d ts us hfirst hsecond ihfirst ihsecond =>
    rcases ihfirst hc with hbegin | ⟨hempty, rfl⟩
    · exact .inl (Heads.begin_union.mpr (.inl hbegin))
    · rw [hc] at ihsecond
      simp only [goalMayBeEmpty] at hempty
      rcases ihsecond hc with hbegin | ⟨hempty', rfl⟩
      · refine .inl (Heads.begin_union.mpr (.inr ?_))
        rw [if_pos hempty]
        exact hbegin
      · simp only [goalMayBeEmpty] at hempty'
        exact .inr ⟨by simp [goalMayBeEmpty, mayBeEmpty, hempty, hempty'], rfl⟩
  | left _ ih =>
    rcases ih hc with hbegin | ⟨hempty, rfl⟩
    · exact .inl (Heads.begin_union.mpr (.inl hbegin))
    · simp only [goalMayBeEmpty] at hempty
      exact .inr ⟨by simp [goalMayBeEmpty, mayBeEmpty, hempty], rfl⟩
  | right _ ih =>
    rcases ih hc with hbegin | ⟨hempty, rfl⟩
    · exact .inl (Heads.begin_union.mpr (.inr hbegin))
    · simp only [goalMayBeEmpty] at hempty
      exact .inr ⟨by simp [goalMayBeEmpty, mayBeEmpty, hempty], rfl⟩
  | present _ ih =>
    rcases ih hc with hbegin | ⟨-, rfl⟩
    · exact .inl hbegin
    · exact .inr ⟨rfl, rfl⟩
  | some _ _ ihfirst ihmore =>
    rcases ihfirst hc with hbegin | ⟨-, rfl⟩
    · exact .inl hbegin
    · rcases ihmore hc with hbegin | ⟨-, rfl⟩
      · exact .inl hbegin
      · exact .inr ⟨rfl, rfl⟩
  | again _ _ ihfirst ihmore =>
    rw [hc] at ihfirst
    rcases ihfirst hc with hbegin | ⟨-, rfl⟩
    · exact .inl hbegin
    · rcases ihmore hc with hbegin | ⟨-, rfl⟩
      · exact .inl hbegin
      · exact .inr ⟨rfl, rfl⟩
  | finish | absent | none | stop | never => exact .inr ⟨rfl, rfl⟩

theorem Reads.begins {e : Peg Rule} {c d : Cursor} {ts : List (Tree Rule)}
    (h : Reads (.one e) c d ts) (hc : c.skip .spaced = c)
    (he : mayBeEmpty mayBeEmptyRule e = false) : (heads e).Begin c.rest :=
  (h.goal_begins hc).resolve_right fun ⟨hempty, _⟩ => by
    rw [goalMayBeEmpty, he] at hempty
    cases hempty

/-- Where no head of an expression stands, the expression fails. -/
theorem fails_of_not_begin {e : Peg Rule} (hmodest : isModest e)
    (he : mayBeEmpty mayBeEmptyRule e = false) {c : Cursor} (hc : c.skip .spaced = c)
    (h : ¬ (heads e).Begin c.rest) : sdl.Fails .spaced e c := by
  rcases sdl_bounded.matches_or_fails .spaced hmodest c with ⟨d, ts, hmatches⟩ | hfails
  · exact absurd (Reads.begins hmatches.derives hc he) h
  · exact hfails

end Grammar
end Sdl
end EntitySdl
