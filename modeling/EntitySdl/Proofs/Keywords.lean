import EntitySdl.Proofs.Prediction

/-! # Definitions and their keywords

A definition begins with its keyword, except that a description or the word
`extend` may stand before it.  The keyword decides which rule a definition is
read by.
-/
namespace EntitySdl
namespace Sdl
namespace Grammar

open Peg

/-- Whether neither of two words begins with the other. -/
def differ (word other : List Char) : Bool := !word.isPrefixOf other && !other.isPrefixOf word

theorem not_prefix_of_differ {word other cs : List Char} (h : differ word other)
    (hword : word <+: cs) : ¬ other <+: cs := by
  intro hother
  simp only [differ, Bool.and_eq_true, Bool.not_eq_true'] at h
  rcases List.prefix_or_prefix_of_prefix hword hother with hle | hle
  · rw [List.isPrefixOf_iff_prefix.mpr hle] at h
    cases h.1
  · rw [List.isPrefixOf_iff_prefix.mpr hle] at h
    cases h.2

/-- The types that are defined. -/
def typeRules : List Rule :=
  [.scalarType, .objectType, .interfaceType, .unionType, .enumType, .inputObjectType]

/-- The keyword of a rule for definitions. -/
def keyword : Rule → List Char
  | .schemaDefinition => "schema".toList
  | .directiveDefinition => "directive".toList
  | .scalarType => "scalar".toList
  | .objectType => "type".toList
  | .interfaceType => "interface".toList
  | .unionType => "union".toList
  | .enumType => "enum".toList
  | .inputObjectType => "input".toList
  | _ => []

/-- The rules that have a keyword. -/
def keywordRules : List Rule := .schemaDefinition :: .directiveDefinition :: typeRules

/-- The word before the keyword of an extension. -/
def extendWord : List Char := "extend".toList

theorem keyword_differ : ∀ r ∈ keywordRules, ∀ r' ∈ keywordRules, r ≠ r' →
    differ (keyword r) (keyword r') := by decide +kernel

theorem keyword_differ_extend : ∀ r ∈ keywordRules, differ (keyword r) extendWord := by
  decide +kernel

theorem keyword_differ_quote : ∀ r ∈ keywordRules, differ ['"'] (keyword r) := by decide +kernel

/-- A definition with a keyword may stand at a place. -/
inductive Announces (word : List Char) (c : Cursor) : Prop where
  /-- The keyword stands behind a description, or at once. -/
  | plain {m ts} (hdescription : sdl.Matches .spaced description c m ts)
      (hword : word <+: (m.skip .spaced).rest)
  /-- The keyword of an extension. -/
  | extension {m ts} (hextend : sdl.Matches .spaced (.rule .extend) c m ts)
      (hword : word <+: (m.skip .spaced).rest)

section Announced

variable {c : Cursor}

theorem begins_extend {m : Cursor} {ts : List (Tree Rule)}
    (h : sdl.Matches .spaced (.rule .extend) c m ts) : extendWord <+: c.rest := by
  obtain ⟨us, h, -⟩ := matches_rule_iff.mp h
  exact ⟨m.rest, (matches_text_iff.mp h).1.symm⟩

/-- A text that does not begin with a quote has no description. -/
theorem matches_no_description {word : List Char} (hquote : differ ['"'] word)
    (hc : c.skip .spaced = c) (hword : word <+: c.rest) :
    sdl.Matches .spaced description c c [] := by
  refine matches_optional_iff.mpr (.inr ⟨?_, rfl, rfl⟩)
  refine fails_of_not_begin (by decide +kernel) rfl hc ?_
  rintro (⟨quote, hquote', -, hpre⟩ | ⟨hnames, -⟩ | ⟨hall, -⟩)
  · cases List.mem_singleton.mp hquote'
    exact not_prefix_of_differ hquote hpre hword
  · cases hnames
  · cases hall

/-- Behind a description or none, a word stands at the start or behind a quote. -/
theorem described_begins {word : List Char} {m : Cursor} {ts : List (Tree Rule)}
    (hc : c.skip .spaced = c) (h : sdl.Matches .spaced description c m ts)
    (hword : word <+: (m.skip .spaced).rest) : ['"'] <+: c.rest ∨ word <+: c.rest := by
  rcases matches_optional_iff.mp h with h | ⟨-, rfl, -⟩
  · rcases string_begins h with ⟨quote, hquote, -, hpre⟩ | ⟨hnames, -⟩ | ⟨hall, -⟩
    · cases List.mem_singleton.mp hquote
      exact .inl hpre
    · cases hnames
    · cases hall
  · rw [hc] at hword
    exact .inr hword

variable {word other : List Char} {rest : Peg Rule}

/-- Another keyword does not stand where one is announced. -/
theorem Announces.fails_text (h : Announces word c) (hc : c.skip .spaced = c)
    (hword : differ word other) (hextend : differ other extendWord)
    (hquote : differ ['"'] other) : sdl.Fails .spaced (.text other) c := by
  refine fails_text_iff.mpr ?_
  cases h with
  | plain hdescription hpre =>
    rcases described_begins hc hdescription hpre with h | h
    · exact not_prefix_of_differ hquote h
    · exact not_prefix_of_differ hword h
  | extension hmatches _ =>
    exact fun hother => not_prefix_of_differ hextend hother (begins_extend hmatches)

theorem Announces.fails_described (h : Announces word c) (hc : c.skip .spaced = c)
    (hword : differ word other) (hextend : differ other extendWord) :
    sdl.Fails .spaced (.seq description (.seq (.text other) rest)) c := by
  cases h with
  | plain hdescription hpre =>
    refine fails_seq_iff.mpr (.inr ⟨_, _, hdescription, fails_seq_iff.mpr (.inl ?_)⟩)
    exact fails_text_iff.mpr (not_prefix_of_differ hword hpre)
  | extension hmatches _ =>
    have hpre := begins_extend hmatches
    have hnone := matches_no_description (by decide +kernel) hc hpre
    refine fails_seq_iff.mpr (.inr ⟨_, _, hnone, fails_seq_iff.mpr (.inl ?_)⟩)
    rw [hc]
    exact fails_text_iff.mpr fun hother => not_prefix_of_differ hextend hother hpre

theorem Announces.fails_extension (h : Announces word c) (hc : c.skip .spaced = c)
    (hword : differ word other) (hextend : differ word extendWord) :
    sdl.Fails .spaced (.seq (.rule .extend) (.seq (.text other) rest)) c := by
  cases h with
  | plain hdescription hpre =>
    refine fails_seq_iff.mpr (.inl (fails_rule_iff.mpr (fails_text_iff.mpr ?_)))
    change ¬ extendWord <+: c.rest
    rcases described_begins hc hdescription hpre with h | h
    · exact not_prefix_of_differ (by decide +kernel) h
    · exact not_prefix_of_differ hextend h
  | extension hmatches hpre =>
    refine fails_seq_iff.mpr (.inr ⟨_, _, hmatches, fails_seq_iff.mpr (.inl ?_)⟩)
    exact fails_text_iff.mpr (not_prefix_of_differ hword hpre)

/-- A rule fails where the keyword of another is announced. -/
theorem Announces.fails_rule {r r' : Rule} (hr : r ∈ keywordRules) (hr' : r' ∈ keywordRules)
    (hne : r ≠ r') (hc : c.skip .spaced = c) (h : Announces (keyword r) c) :
    sdl.Fails .spaced (.rule r') c := by
  have hword := keyword_differ r hr r' hr' hne
  have hextend := keyword_differ_extend r hr
  have hextend' := keyword_differ_extend r' hr'
  rw [fails_rule_iff]
  have hdefined : ∀ {plain extension : Peg Rule}, sdl.Fails .spaced
      (.choice (.seq description (.seq (.text (keyword r')) plain))
        (.seq (.rule .extend) (.seq (.text (keyword r')) extension))) c := fun {_ _} =>
    fails_choice_iff.mpr ⟨h.fails_described hc hword hextend', h.fails_extension hc hword hextend⟩
  simp only [keywordRules, typeRules, List.mem_cons, List.not_mem_nil, or_false] at hr'
  rcases hr' with rfl | rfl | rfl | rfl | rfl | rfl | rfl | rfl
  · refine fails_choice_iff.mpr ⟨fails_seq_iff.mpr (.inl ?_), h.fails_extension hc hword hextend⟩
    exact h.fails_text hc hword hextend' (by decide +kernel)
  · exact h.fails_described hc hword hextend'
  all_goals exact hdefined

theorem matches_of_reads_lexeme {r : Rule} (hr : r.isLexeme) {d : Cursor} {ts : List (Tree Rule)}
    (h : Reads (.one (.rule r)) c d ts) : sdl.Matches .spaced (.rule r) c d ts := by
  cases h with
  | token _ h => exact h
  | rule hr' _ =>
    rw [hr] at hr'
    cases hr'

theorem announces_of_described (hquote : differ ['"'] word) (hc : c.skip .spaced = c) {d : Cursor}
    {ts : List (Tree Rule)}
    (h : Reads (.one (.seq description (.seq (.text word) rest))) c d ts) : Announces word c := by
  cases h with
  | seq hdescription hrest =>
    cases hrest with
    | seq hword _ =>
      cases hword with
      | text hpre _ =>
        cases hdescription with
        | present h =>
          have hstring := matches_of_reads_lexeme rfl h
          exact .plain (matches_optional_iff.mpr (.inl hstring)) ⟨_, hpre.symm⟩
        | absent =>
          have hpre' : word <+: c.rest := ⟨_, by rw [← hpre, hc]⟩
          exact .plain (matches_no_description hquote hc hpre') ⟨_, hpre.symm⟩

theorem announces_of_extension (hc : c.skip .spaced = c) {d : Cursor} {ts : List (Tree Rule)}
    (h : Reads (.one (.seq (.rule .extend) (.seq (.text word) rest))) c d ts) :
    Announces word c := by
  cases h with
  | seq hextend hrest =>
    cases hrest with
    | seq hword _ =>
      cases hword with
      | text hpre _ =>
        have hmatches := @Reads.found _ _ _ _ hextend { all := true } (by decide +kernel)
          (follows_all _) hc
        exact .extension hmatches ⟨_, hpre.symm⟩

theorem announces_of_word (hquote : differ ['"'] word) (hc : c.skip .spaced = c) {d : Cursor}
    {ts : List (Tree Rule)} (h : Reads (.one (.seq (.text word) rest)) c d ts) :
    Announces word c := by
  cases h with
  | seq hword _ =>
    cases hword with
    | text hpre _ =>
      refine .plain (matches_no_description hquote hc ⟨_, hpre.symm⟩) ?_
      rw [hc]
      exact ⟨_, hpre.symm⟩

/-- What is read by a rule with a keyword announces it. -/
theorem announces_of_reads {r : Rule} (hr : r ∈ keywordRules) (hc : c.skip .spaced = c)
    {d : Cursor} {ts : List (Tree Rule)} (h : Reads (.one (.rule r)) c d ts) :
    Announces (keyword r) c := by
  have hquote := keyword_differ_quote r hr
  have hlexeme : r.isLexeme = false := (by decide : ∀ r ∈ keywordRules, r.isLexeme = false) r hr
  obtain ⟨us, h, -⟩ := (reads_rule_iff hlexeme).mp h
  have hdefined : ∀ {plain extension : Peg Rule}, Reads (.one
      (.choice (.seq description (.seq (.text (keyword r)) plain))
        (.seq (.rule .extend) (.seq (.text (keyword r)) extension)))) c d us →
      Announces (keyword r) c := by
    intro _ _ h
    cases h with
    | left h => exact announces_of_described hquote hc h
    | right h => exact announces_of_extension hc h
  simp only [keywordRules, typeRules, List.mem_cons, List.not_mem_nil, or_false] at hr
  rcases hr with rfl | rfl | rfl | rfl | rfl | rfl | rfl | rfl
  · cases h with
    | left h => exact announces_of_word hquote hc h
    | right h => exact announces_of_extension hc h
  · exact announces_of_described hquote hc h
  all_goals exact hdefined h

end Announced

end Grammar
end Sdl
end EntitySdl
