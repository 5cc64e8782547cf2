import EntitySdl.Proofs.Spelling

/-! # Strings

A string stands between quotes or, as a block, between three quotes.  A block goes
on to the next three quotes that no backslash stands before; a quoted string has
no line feed.  A string is quoted only where no block can be matched.
-/
namespace EntitySdl
namespace Sdl

/-- The three quotes around a block. -/
def blockQuotes : List Char := "\"\"\"".toList

/-- Three quotes inside a block. -/
def escapedQuotes : List Char := '\\' :: blockQuotes

/-- A text begins with the content of a block and the quotes behind it; the second
text stands behind these. -/
inductive EndsBlock : List Char → List Char → Prop where
  /-- The block ends. -/
  | close {behind} : EndsBlock (blockQuotes ++ behind) behind
  /-- Three quotes are inside the block. -/
  | escape {cs behind} (h : EndsBlock cs behind) : EndsBlock (escapedQuotes ++ cs) behind
  /-- Another character is inside the block. -/
  | char {c cs behind} (hclose : ¬ blockQuotes <+: c :: cs) (hescape : ¬ escapedQuotes <+: c :: cs)
      (h : EndsBlock cs behind) : EndsBlock (c :: cs) behind

/-- One character in a quoted string, or an escape. -/
inductive IsStringUnit : List Char → Prop where
  /-- A character for itself. -/
  | char {c} (hquote : c ≠ '"') (hescape : c ≠ '\\') (hline : isLineEnd c = false) :
      IsStringUnit [c]
  /-- An escaped character. -/
  | escape {c} (hc : ['"', '\\', '/', 'b', 'f', 'n', 'r', 't'].contains c) : IsStringUnit ['\\', c]
  /-- Four digits for a character that is no surrogate. -/
  | digits {a b c d} (hall : ∀ x ∈ [a, b, c, d], Text.isAsciiHexDigit x)
      (hscalar : ¬ ((a == 'd' || a == 'D') ∧ (Text.isAsciiHexDigit b && 8 ≤ Text.digitValue b))) :
      IsStringUnit ['\\', 'u', a, b, c, d]

/-- The content of a quoted string. -/
inductive IsStringContent : List Char → Prop where
  /-- It is empty. -/
  | nil : IsStringContent []
  /-- A unit comes first. -/
  | unit {unit cs} (hunit : IsStringUnit unit) (h : IsStringContent cs) :
      IsStringContent (unit ++ cs)

/-- Behind its content a block ends with three quotes. -/
theorem EndsBlock.exists_content {cs behind : List Char} (h : EndsBlock cs behind) :
    ∃ content, cs = content ++ (blockQuotes ++ behind) := by
  induction h with
  | close => exact ⟨[], rfl⟩
  | escape _ ih =>
    obtain ⟨content, rfl⟩ := ih
    exact ⟨escapedQuotes ++ content, (List.append_assoc ..).symm⟩
  | @char c _ _ _ _ _ ih =>
    obtain ⟨content, rfl⟩ := ih
    exact ⟨c :: content, rfl⟩

theorem EndsBlock.length_lt {cs behind : List Char} (h : EndsBlock cs behind) :
    behind.length < cs.length := by
  obtain ⟨content, rfl⟩ := h.exists_content
  simp only [blockQuotes, List.length_append]
  exact Nat.lt_add_left _ (Nat.lt_add_of_pos_left (by decide))

/-- A block ends where it does whatever else stands behind it. -/
theorem EndsBlock.append {cs behind : List Char} (h : EndsBlock cs behind) (more : List Char) :
    EndsBlock (cs ++ more) (behind ++ more) := by
  -- the quotes that a text begins with are among its first four characters
  have hpre : ∀ {word cs : List Char}, word.length ≤ cs.length → word <+: cs ++ more →
      word <+: cs := fun hlength hword =>
    List.prefix_of_prefix_length_le hword (List.prefix_append _ _) hlength
  induction h with
  | @close behind =>
    rw [List.append_assoc]
    exact .close
  | escape _ ih =>
    rw [List.append_assoc]
    exact .escape ih
  | @char c cs behind hclose hescape h ih =>
    obtain ⟨content, rfl⟩ := h.exists_content
    refine .char (fun hword => hclose (hpre ?_ hword)) (fun hword => hescape (hpre ?_ hword)) ih
    · simp [blockQuotes]
      omega
    · simp [blockQuotes, escapedQuotes]
      omega

theorem IsStringUnit.not_feed {unit : List Char} (h : IsStringUnit unit) : '\n' ∉ unit := by
  cases h with
  | char _ _ hline =>
    rintro hmem
    cases List.mem_singleton.mp hmem
    cases hline
  | escape hc =>
    rintro (_ | ⟨_, _ | ⟨_, hmem⟩⟩)
    · cases hc
    · cases hmem
  | digits hall _ =>
    simp only [List.mem_cons, List.not_mem_nil, or_false, not_or]
    refine ⟨by decide, by decide, ?_, ?_, ?_, ?_⟩ <;>
    · rintro rfl
      exact absurd (hall '\n' (by simp)) (by decide)

theorem IsStringContent.not_feed {cs : List Char} (h : IsStringContent cs) : '\n' ∉ cs := by
  induction h with
  | nil => simp
  | unit hunit _ ih => exact fun hmem => (List.mem_append.mp hmem).elim hunit.not_feed ih

/-- A quoted string that is not empty does not begin with a quote. -/
theorem IsStringContent.head_ne_quote {cs : List Char} (h : IsStringContent cs) :
    cs.head? ≠ some '"' := by
  cases h with
  | nil => simp
  | unit hunit _ => cases hunit <;> simp_all

namespace Grammar

open Peg Text

variable {c d : Cursor} {ts : List (Tree Rule)}

section Parts

variable {mode : Mode} {e : Peg Rule} {chars : List Char} {accepts : Char → Bool}

theorem skip_of_ne {mode : Mode} (hmode : mode ≠ .spaced) (c : Cursor) : c.skip mode = c := by
  cases mode with
  | spaced => exact absurd rfl hmode
  | tight | token => rfl

/-- Where nothing may stand between parts, repetitions need not be told from further
ones. -/
theorem matches_many_of_repeats (hmode : mode ≠ .spaced) (h : sdl.Repeats mode e c d ts) :
    sdl.Matches mode (.many e) c d ts := by
  have hrepeats := repeats_iff.mp h
  rw [skip_of_ne hmode] at hrepeats
  exact matches_many_iff.mpr hrepeats

theorem exists_repeats_of_many (hmode : mode ≠ .spaced) (h : sdl.Matches mode (.many e) c d ts) :
    sdl.Repeats mode e c d ts := by
  have hmany := matches_many_iff.mp h
  rw [← skip_of_ne hmode c] at hmany
  refine repeats_iff.mpr ?_
  rw [skip_of_ne hmode] at hmany ⊢
  exact hmany

theorem matches_text_seq_iff (hmode : mode ≠ .spaced) :
    sdl.Matches mode (.seq (.text chars) e) c d ts ↔
      ∃ rest, c.rest = chars ++ rest ∧ sdl.Matches mode e ⟨c.offset + chars.length, rest⟩ d ts := by
  rw [matches_seq_iff]
  constructor
  · rintro ⟨⟨offset, rest⟩, _, vs, hm, hd, rfl⟩
    obtain ⟨hrest, hoffset, rfl⟩ := matches_text_iff.mp hm
    change offset = _ at hoffset
    subst hoffset
    rw [skip_of_ne hmode] at hd
    exact ⟨rest, hrest, hd⟩
  · rintro ⟨rest, hrest, hd⟩
    refine ⟨⟨c.offset + chars.length, rest⟩, [], ts, matches_text_iff.mpr ⟨hrest, rfl, rfl⟩, ?_,
      rfl⟩
    rwa [skip_of_ne hmode]

theorem matches_character_seq_iff (hmode : mode ≠ .spaced) :
    sdl.Matches mode (.seq (.charWhere accepts) e) c d ts ↔
      ∃ x rest, accepts x ∧ c.rest = x :: rest ∧ sdl.Matches mode e ⟨c.offset + 1, rest⟩ d ts := by
  rw [matches_seq_iff]
  constructor
  · rintro ⟨⟨offset, rest⟩, _, vs, hm, hd, rfl⟩
    obtain ⟨x, hx, hrest, hoffset, rfl⟩ := matches_charWhere_iff.mp hm
    change offset = _ at hoffset
    subst hoffset
    rw [skip_of_ne hmode] at hd
    exact ⟨x, rest, hx, hrest, hd⟩
  · rintro ⟨x, rest, hx, hrest, hd⟩
    refine ⟨⟨c.offset + 1, rest⟩, [], ts, matches_charWhere_iff.mpr ⟨x, hx, hrest, rfl, rfl⟩, ?_,
      rfl⟩
    rwa [skip_of_ne hmode]

theorem fails_character_seq_iff (hmode : mode ≠ .spaced) :
    sdl.Fails mode (.seq (.charWhere accepts) e) c ↔
      ∀ x rest, c.rest = x :: rest → accepts x → sdl.Fails mode e ⟨c.offset + 1, rest⟩ := by
  rw [fails_seq_iff, fails_charWhere_iff]
  constructor
  · rintro (h | ⟨⟨offset, rest'⟩, _, hm, h⟩) x rest hrest hx
    · rw [h x (by rw [hrest]; rfl)] at hx
      cases hx
    · obtain ⟨y, -, hrest', hoffset, -⟩ := matches_charWhere_iff.mp hm
      rw [hrest] at hrest'
      cases hrest'
      cases hoffset
      rwa [skip_of_ne hmode] at h
  · intro h
    cases hrest : c.rest with
    | nil => exact .inl (by simp)
    | cons x rest =>
      cases hx : accepts x with
      | false => exact .inl (by simpa using hx)
      | true =>
        refine .inr ⟨⟨c.offset + 1, rest⟩, [],
          matches_charWhere_iff.mpr ⟨x, hx, hrest, rfl, rfl⟩, ?_⟩
        rw [skip_of_ne hmode]
        exact h x rest hrest hx

end Parts

section Blocks

theorem matches_blockCharacter_iff : sdl.Matches .token blockCharacter c d ts ↔
    ts = [] ∧ ((∃ x, ¬ blockQuotes <+: c.rest ∧ ¬ escapedQuotes <+: c.rest ∧ c.rest = x :: d.rest ∧
        d.offset = c.offset + 1) ∨
      (c.rest = escapedQuotes ++ d.rest ∧ d.offset = c.offset + 4)) := by
  have hnever : ∀ {e ts}, sdl.Matches .token (.never (.choice (word "\"\"\"") (word "\\\"\"\"")))
      c e ts ↔ (¬ blockQuotes <+: c.rest ∧ ¬ escapedQuotes <+: c.rest) ∧ e = c ∧ ts = [] := by
    intro e ts
    rw [matches_never_iff, fails_choice_iff, word, word, fails_text_iff, fails_text_iff]
    rfl
  constructor
  · intro h
    rcases matches_choice_iff.mp h with h | ⟨-, h⟩
    · obtain ⟨m, _, _, hfirst, hsecond, rfl⟩ := matches_seq_iff.mp h
      obtain ⟨⟨hclose, hescape⟩, rfl, rfl⟩ := hnever.mp hfirst
      obtain ⟨x, -, hrest, hoffset, rfl⟩ := matches_charWhere_iff.mp hsecond
      exact ⟨rfl, .inl ⟨x, hclose, hescape, hrest, hoffset⟩⟩
    · obtain ⟨hrest, hoffset, rfl⟩ := matches_text_iff.mp h
      exact ⟨rfl, .inr ⟨hrest, hoffset⟩⟩
  · rintro ⟨rfl, ⟨x, hclose, hescape, hrest, hoffset⟩ | ⟨hrest, hoffset⟩⟩
    · refine matches_choice_iff.mpr (.inl (matches_seq_iff.mpr ⟨c, [], [], ?_, ?_, rfl⟩))
      · exact hnever.mpr ⟨⟨hclose, hescape⟩, rfl, rfl⟩
      · exact matches_charWhere_iff.mpr ⟨x, rfl, hrest, hoffset, rfl⟩
    · refine matches_choice_iff.mpr (.inr ⟨?_, matches_text_iff.mpr ⟨hrest, hoffset, rfl⟩⟩)
      refine fails_seq_iff.mpr (.inl (fails_never_iff.mpr ⟨d, [], ?_⟩))
      refine matches_choice_iff.mpr (.inr ⟨fails_text_iff.mpr ?_, ?_⟩)
      · rw [hrest]
        rintro ⟨rest, hquotes⟩
        cases hquotes
      · exact matches_text_iff.mpr ⟨hrest, hoffset, rfl⟩

theorem fails_blockCharacter (h : blockQuotes <+: c.rest) : sdl.Fails .token blockCharacter c := by
  obtain ⟨rest, hrest⟩ := h
  refine fails_choice_iff.mpr ⟨fails_seq_iff.mpr (.inl (fails_never_iff.mpr ?_)), ?_⟩
  · exact ⟨⟨c.offset + 3, rest⟩, [], matches_choice_iff.mpr
      (.inl (matches_text_iff.mpr ⟨hrest.symm, rfl, rfl⟩))⟩
  · refine fails_text_iff.mpr ?_
    rw [← hrest]
    rintro ⟨rest, hquotes⟩
    cases hquotes

/-- The content of a block is matched up to the three quotes behind it. -/
theorem repeats_blockCharacter {cs behind : List Char} (h : EndsBlock cs behind) (offset : Nat) :
    ∃ m, sdl.Repeats .token blockCharacter ⟨offset, cs⟩ m [] ∧ m.rest = blockQuotes ++ behind := by
  induction h generalizing offset with
  | close => exact ⟨_, repeats_iff.mpr (.inr ⟨fails_blockCharacter ⟨_, rfl⟩, rfl, rfl⟩), rfl⟩
  | @escape cs behind _ ih =>
    obtain ⟨m, hrepeats, hm⟩ := ih (offset + 4)
    refine ⟨m, repeats_iff.mpr (.inl ⟨⟨offset + 4, cs⟩, [], [], ?_, hrepeats, rfl⟩), hm⟩
    exact matches_blockCharacter_iff.mpr ⟨rfl, .inr ⟨rfl, rfl⟩⟩
  | @char c cs behind hclose hescape _ ih =>
    obtain ⟨m, hrepeats, hm⟩ := ih (offset + 1)
    refine ⟨m, repeats_iff.mpr (.inl ⟨⟨offset + 1, cs⟩, [], [], ?_, hrepeats, rfl⟩), hm⟩
    exact matches_blockCharacter_iff.mpr ⟨rfl, .inl ⟨c, hclose, hescape, rfl, rfl⟩⟩

theorem endsBlock_of_blockCharacter {m : Cursor} {behind : List Char}
    (h : sdl.Matches .token blockCharacter c m ts) (hm : EndsBlock m.rest behind) :
    EndsBlock c.rest behind := by
  rcases (matches_blockCharacter_iff.mp h).2 with ⟨x, hclose, hescape, hrest, -⟩ | ⟨hrest, -⟩
  · rw [hrest] at hclose hescape ⊢
    exact .char hclose hescape hm
  · rw [hrest]
    exact .escape hm

theorem endsBlock_of_repeats {m : Cursor} {behind : List Char}
    (h : sdl.Repeats .token blockCharacter c m ts) (hm : m.rest = blockQuotes ++ behind) :
    EndsBlock c.rest behind := by
  refine Repeats.induct (motive := fun c _ => EndsBlock c.rest behind) ?_ ?_ h
  · intro _
    rw [hm]
    exact .close
  · exact fun hfirst hrest => endsBlock_of_blockCharacter hfirst hrest

end Blocks

section Quoted

/-- A surrogate begins with one of two digits, and the next digit is eight or more. -/
theorem fails_surrogate_iff {x y : Char} {rest : List Char} (hrest : c.rest = x :: y :: rest) :
    sdl.Fails .token (.seq (.charWhere fun c => c == 'd' || c == 'D')
        (.charWhere fun c => isAsciiHexDigit c && 8 ≤ digitValue c)) c ↔
      ¬ ((x == 'd' || x == 'D') ∧ (isAsciiHexDigit y && 8 ≤ digitValue y)) := by
  rw [fails_character_seq_iff (by decide), hrest]
  constructor
  · rintro h ⟨hx, hy⟩
    rw [fails_charWhere_iff.mp (h x _ rfl hx) y rfl] at hy
    cases hy
  · rintro h _ _ ⟨⟩ hx
    refine fails_charWhere_iff.mpr fun z hz => ?_
    cases hz
    simpa [hx] using h

theorem matches_scalarDigits_iff : sdl.Matches .token scalarDigits c d ts ↔
    ∃ digits, IsStringUnit ('\\' :: 'u' :: digits) ∧ digits.length = 4 ∧
      c.rest = digits ++ d.rest ∧ d.offset = c.offset + 4 ∧ ts = [] := by
  have hdigits : ∀ {c : Cursor}, sdl.Matches .token (seqOf [.charWhere isAsciiHexDigit,
      .charWhere isAsciiHexDigit, .charWhere isAsciiHexDigit, .charWhere isAsciiHexDigit]) c d ts ↔
        ∃ x₁ x₂ x₃ x₄, c.rest = x₁ :: x₂ :: x₃ :: x₄ :: d.rest ∧ d.offset = c.offset + 4 ∧ ts = [] ∧
          ∀ x ∈ [x₁, x₂, x₃, x₄], isAsciiHexDigit x := by
    intro c
    simp only [seqOf, @matches_character_seq_iff _ _ _ .token _ _ (by decide),
      matches_charWhere_iff]
    constructor
    · rintro ⟨x₁, _, h₁, hrest, x₂, _, h₂, rfl, x₃, _, h₃, rfl, x₄, h₄, rfl, hoffset, rfl⟩
      exact ⟨x₁, x₂, x₃, x₄, hrest, hoffset, rfl, by simp [h₁, h₂, h₃, h₄]⟩
    · rintro ⟨x₁, x₂, x₃, x₄, hrest, hoffset, rfl, hall⟩
      simp only [List.mem_cons, List.not_mem_nil, or_false, forall_eq_or_imp, forall_eq] at hall
      exact ⟨x₁, _, hall.1, hrest, x₂, _, hall.2.1, rfl, x₃, _, hall.2.2.1, rfl, x₄, hall.2.2.2,
        rfl, hoffset, rfl⟩
  constructor
  · intro h
    obtain ⟨_, _, _, hnever, hfour, rfl⟩ := matches_seq_iff.mp h
    obtain ⟨hfails, rfl, rfl⟩ := matches_never_iff.mp hnever
    obtain ⟨x₁, x₂, x₃, x₄, hrest, hoffset, rfl, hall⟩ := hdigits.mp hfour
    exact ⟨_, .digits hall ((fails_surrogate_iff hrest).mp hfails), rfl, hrest, hoffset, rfl⟩
  · rintro ⟨digits, hunit, hlength, hrest, hoffset, rfl⟩
    cases hunit with
    | escape => cases hlength
    | @digits x₁ x₂ x₃ x₄ hall hscalar =>
      refine matches_seq_iff.mpr ⟨c, [], [], matches_never_iff.mpr ⟨?_, rfl, rfl⟩, ?_, rfl⟩
      · exact (fails_surrogate_iff hrest).mpr hscalar
      · exact hdigits.mpr ⟨x₁, x₂, x₃, x₄, hrest, hoffset, rfl, hall⟩

theorem matches_stringCharacter_iff : sdl.Matches .token stringCharacter c d ts ↔
    ∃ unit, IsStringUnit unit ∧ c.rest = unit ++ d.rest ∧ d.offset = c.offset + unit.length ∧
      ts = [] := by
  constructor
  · intro h
    rcases matches_choice_iff.mp h with h | ⟨-, h⟩
    · obtain ⟨x, hx, hrest, hoffset, rfl⟩ := matches_charWhere_iff.mp h
      simp only [Bool.and_eq_true, bne_iff_ne, Bool.not_eq_true'] at hx
      exact ⟨[x], .char hx.1.1 hx.1.2 hx.2, hrest, hoffset, rfl⟩
    rcases matches_choice_iff.mp h with h | ⟨-, h⟩
    · obtain ⟨rest, hrest, h⟩ := (matches_text_seq_iff (by decide)).mp h
      obtain ⟨x, hx, hrest', hoffset, rfl⟩ := matches_charWhere_iff.mp h
      exact ⟨['\\', x], .escape hx, by rw [hrest]; exact congrArg _ hrest', hoffset, rfl⟩
    · obtain ⟨rest, hrest, h⟩ := (matches_text_seq_iff (by decide)).mp h
      obtain ⟨digits, hunit, hlength, hrest', hoffset, rfl⟩ := matches_scalarDigits_iff.mp h
      refine ⟨_, hunit, by rw [hrest]; exact congrArg _ hrest', ?_, rfl⟩
      rw [hoffset]
      simp [hlength, Nat.add_assoc]
  · rintro ⟨unit, hunit, hrest, hoffset, rfl⟩
    cases hunit with
    | @char x hquote hescape hline =>
      refine matches_choice_iff.mpr (.inl (matches_charWhere_iff.mpr ⟨x, ?_, hrest, hoffset, rfl⟩))
      simp [hquote, hescape, hline]
    | @escape x hx =>
      refine matches_choice_iff.mpr (.inr ⟨?_, matches_choice_iff.mpr (.inl ?_)⟩)
      · refine fails_charWhere_iff.mpr fun y hy => ?_
        rw [hrest] at hy
        cases hy
        decide
      · exact (matches_text_seq_iff (by decide)).mpr
          ⟨x :: d.rest, hrest, matches_charWhere_iff.mpr ⟨x, hx, rfl, hoffset, rfl⟩⟩
    | @digits x₁ x₂ x₃ x₄ hall hscalar =>
      -- the digits come last, behind characters and short escapes
      refine matches_choice_iff.mpr (.inr ⟨?_, matches_choice_iff.mpr (.inr ⟨?_, ?_⟩)⟩)
      · refine fails_charWhere_iff.mpr fun y hy => ?_
        rw [hrest] at hy
        cases hy
        decide
      · refine fails_seq_iff.mpr (.inr ⟨⟨c.offset + 1, _⟩, [],
          matches_text_iff.mpr ⟨hrest, rfl, rfl⟩, fails_charWhere_iff.mpr fun y hy => ?_⟩)
        cases hy
        decide
      · exact (matches_text_seq_iff (by decide)).mpr ⟨[x₁, x₂, x₃, x₄] ++ d.rest, hrest,
          matches_scalarDigits_iff.mpr ⟨_, .digits hall hscalar, rfl, rfl, hoffset, rfl⟩⟩

/-- A quoted string has no character that is a quote. -/
theorem fails_stringCharacter (h : c.rest.head? = some '"') :
    sdl.Fails .token stringCharacter c := by
  have hword : ∀ {chars : List Char} {e : Peg Rule}, chars.head? = some '\\' →
      sdl.Fails .token (.seq (.text chars) e) c := by
    intro chars e hchars
    refine fails_seq_iff.mpr (.inl (fails_text_iff.mpr ?_))
    rintro ⟨rest, hrest⟩
    rw [← hrest, List.head?_append, hchars] at h
    cases h
  refine fails_choice_iff.mpr ⟨fails_charWhere_iff.mpr fun x hx => ?_,
    fails_choice_iff.mpr ⟨hword rfl, hword rfl⟩⟩
  rw [h] at hx
  cases hx
  decide

theorem repeats_stringCharacter {cs behind : List Char} (h : IsStringContent cs)
    (hbehind : behind.head? = some '"') (offset : Nat) :
    sdl.Repeats .token stringCharacter ⟨offset, cs ++ behind⟩ ⟨offset + cs.length, behind⟩ [] := by
  induction h generalizing offset with
  | nil => exact repeats_iff.mpr (.inr ⟨fails_stringCharacter hbehind, rfl, rfl⟩)
  | @unit unit cs hunit _ ih =>
    have hrest := ih (offset + unit.length)
    rw [Nat.add_assoc, ← List.length_append] at hrest
    refine repeats_iff.mpr (.inl ⟨_, [], [], ?_, hrest, rfl⟩)
    exact matches_stringCharacter_iff.mpr ⟨unit, hunit, by simp [Cursor.skip], rfl, rfl⟩

theorem isStringContent_of_repeats (h : sdl.Repeats .token stringCharacter c d ts) :
    ∃ cs, IsStringContent cs ∧ c.rest = cs ++ d.rest := by
  refine Repeats.induct (motive := fun c _ => ∃ cs, IsStringContent cs ∧ c.rest = cs ++ d.rest)
    ?_ ?_ h
  · exact fun _ => ⟨[], .nil, rfl⟩
  · rintro c m us vs hfirst ⟨cs, hcs, hm⟩
    obtain ⟨unit, hunit, hrest, -⟩ := matches_stringCharacter_iff.mp hfirst
    refine ⟨unit ++ cs, .unit hunit hcs, ?_⟩
    rw [List.append_assoc, ← hm]
    exact hrest

end Quoted

section Whole

variable {us : List (Tree Rule)} {content behind : List Char}

/-- The nodes inside a string: one for its content. -/
def IsContentNode (r : Rule) (content : List Char) (us : List (Tree Rule)) : Prop :=
  ∃ start, us = [.node r start content []]

theorem isContentNode_of_reaches (r : Rule) (h : c.Reaches d) (hrest : c.rest = content ++ d.rest) :
    IsContentNode r content [.node r c.offset (c.textTo d) []] :=
  ⟨c.offset, by rw [h.textTo_eq hrest]⟩

/-- A block, with its quotes. -/
def block : Peg Rule := between "\"\"\"" "\"\"\"" (.rule .blockStringContent)

/-- A quoted string, with its quotes. -/
def quoted : Peg Rule := between "\"" "\"" (.rule .stringContent)

theorem endsBlock_of_matches (h : sdl.Matches .tight block c d us) :
    ∃ content, c.rest = blockQuotes ++ (content ++ (blockQuotes ++ d.rest)) ∧
      EndsBlock (content ++ (blockQuotes ++ d.rest)) d.rest ∧
        IsContentNode .blockStringContent content us := by
  obtain ⟨cs, hrest, hinner⟩ := (matches_text_seq_iff (by decide)).mp h
  obtain ⟨m, vs, ws, hcontent, hclose, rfl⟩ := matches_seq_iff.mp hinner
  obtain ⟨hm, -, rfl⟩ := matches_text_iff.mp hclose
  change m.rest = blockQuotes ++ d.rest at hm
  have hreaches := hcontent.reaches
  obtain ⟨xs, hmany, rfl⟩ := matches_rule_iff.mp hcontent
  have hends := endsBlock_of_repeats (exists_repeats_of_many (by decide) hmany) hm
  obtain rfl : xs = [] := by
    refine Repeats.induct (motive := fun _ xs => xs = []) (fun _ => rfl) ?_
      (exists_repeats_of_many (by decide) hmany)
    rintro _ _ _ _ hfirst rfl
    rw [(matches_blockCharacter_iff.mp hfirst).1, List.append_nil]
  obtain ⟨content, hcontent⟩ := hends.exists_content
  change cs = _ at hcontent
  subst hcontent
  exact ⟨content, hrest, hends, isContentNode_of_reaches _ hreaches (by rw [hm])⟩

theorem exists_matches_block (hrest : c.rest = blockQuotes ++ (content ++ (blockQuotes ++ behind)))
    (h : EndsBlock (content ++ (blockQuotes ++ behind)) behind) :
    ∃ d us, sdl.Matches .tight block c d us ∧ d.rest = behind ∧
      IsContentNode .blockStringContent content us := by
  obtain ⟨m, hrepeats, hm⟩ := repeats_blockCharacter h (c.offset + 3)
  have hcontent : sdl.Matches .tight (.rule .blockStringContent) ⟨c.offset + 3, _⟩ m _ :=
    matches_rule_iff.mpr ⟨[], matches_many_of_repeats (by decide) hrepeats, rfl⟩
  have hclose : sdl.Matches .tight (word "\"\"\"") (m.skip .tight) ⟨m.offset + 3, behind⟩ [] :=
    matches_text_iff.mpr ⟨hm, rfl, rfl⟩
  have hblock : sdl.Matches .tight block c _ _ := (matches_text_seq_iff (by decide)).mpr
    ⟨_, hrest, matches_seq_iff.mpr ⟨m, _, [], hcontent, hclose, rfl⟩⟩
  exact ⟨_, _, hblock, rfl, isContentNode_of_reaches _ hcontent.reaches (by rw [hm])⟩

theorem isStringContent_of_matches (h : sdl.Matches .tight quoted c d us) :
    ∃ content, IsStringContent content ∧ c.rest = '"' :: (content ++ '"' :: d.rest) ∧
      IsContentNode .stringContent content us := by
  obtain ⟨rest, hrest, hinner⟩ := (matches_text_seq_iff (by decide)).mp h
  obtain ⟨m, vs, ws, hcontent, hclose, rfl⟩ := matches_seq_iff.mp hinner
  obtain ⟨hm, -, rfl⟩ := matches_text_iff.mp hclose
  change m.rest = '"' :: d.rest at hm
  have hreaches := hcontent.reaches
  obtain ⟨xs, hmany, rfl⟩ := matches_rule_iff.mp hcontent
  have hrepeats := exists_repeats_of_many (by decide) hmany
  obtain ⟨content, hstring, hcontent'⟩ := isStringContent_of_repeats hrepeats
  obtain rfl : xs = [] := by
    refine Repeats.induct (motive := fun _ xs => xs = []) (fun _ => rfl) ?_ hrepeats
    rintro _ _ _ _ hfirst rfl
    obtain ⟨_, -, -, -, rfl⟩ := matches_stringCharacter_iff.mp hfirst
    rfl
  change rest = content ++ m.rest at hcontent'
  subst hcontent'
  exact ⟨content, hstring, by rw [hrest, hm]; rfl, isContentNode_of_reaches _ hreaches rfl⟩

theorem exists_matches_quoted (hcontent : IsStringContent content)
    (hrest : c.rest = '"' :: (content ++ '"' :: behind)) :
    ∃ d us, sdl.Matches .tight quoted c d us ∧ d.rest = behind ∧
      IsContentNode .stringContent content us := by
  have hrepeats := @repeats_stringCharacter _ ('"' :: behind) hcontent rfl (c.offset + 1)
  have hmatches : sdl.Matches .tight (.rule .stringContent) ⟨c.offset + 1, content ++ '"' :: behind⟩
      ⟨c.offset + 1 + content.length, '"' :: behind⟩ _ :=
    matches_rule_iff.mpr ⟨[], matches_many_of_repeats (by decide) hrepeats, rfl⟩
  have hclose : sdl.Matches .tight (word "\"") ⟨c.offset + 1 + content.length, '"' :: behind⟩
      ⟨c.offset + 1 + content.length + 1, behind⟩ [] := matches_text_iff.mpr ⟨rfl, rfl, rfl⟩
  have hquoted : sdl.Matches .tight quoted c _ _ := (matches_text_seq_iff (by decide)).mpr
    ⟨_, hrest, matches_seq_iff.mpr ⟨_, _, [], hmatches, hclose, rfl⟩⟩
  exact ⟨_, _, hquoted, rfl, isContentNode_of_reaches _ hmatches.reaches rfl⟩

/-- A quoted string that is not an empty one before a quote is no block. -/
theorem not_block_of_quoted (hcontent : IsStringContent content)
    (hempty : content = [] → behind.head? ≠ some '"') :
    ¬ blockQuotes <+: '"' :: (content ++ '"' :: behind) := by
  rintro ⟨rest, hrest⟩
  have htail : '"' :: '"' :: rest = content ++ '"' :: behind := (List.cons.inj hrest).2
  cases content with
  | nil =>
    refine hempty rfl ?_
    rw [← (List.cons.inj htail).2]
    rfl
  | cons x content => exact hcontent.head_ne_quote (by rw [← (List.cons.inj htail).1]; rfl)

/-- A string is a block, or quoted where no block can be matched. -/
theorem string_cases (h : sdl.Matches .spaced (.rule .string) c d ts) :
    ∃ us, ts = [.node .string c.offset (c.textTo d) us] ∧
      ((∃ content, c.rest = blockQuotes ++ (content ++ (blockQuotes ++ d.rest)) ∧
          EndsBlock (content ++ (blockQuotes ++ d.rest)) d.rest ∧
            IsContentNode .blockStringContent content us) ∨
        ∃ content, IsStringContent content ∧ c.rest = '"' :: (content ++ '"' :: d.rest) ∧
          sdl.Fails .tight block c ∧ IsContentNode .stringContent content us) := by
  obtain ⟨us, hbody, rfl⟩ := matches_rule_iff.mp h
  refine ⟨us, rfl, ?_⟩
  rcases matches_choice_iff.mp hbody with hblock | ⟨hfails, hquoted⟩
  · exact .inl (endsBlock_of_matches hblock)
  · obtain ⟨content, hcontent, hrest, hus⟩ := isStringContent_of_matches hquoted
    exact .inr ⟨content, hcontent, hrest, hfails, hus⟩

/-- A block is matched as a string. -/
theorem matches_string_of_block
    (hrest : c.rest = blockQuotes ++ (content ++ (blockQuotes ++ behind)))
    (h : EndsBlock (content ++ (blockQuotes ++ behind)) behind) :
    ∃ d us, sdl.Matches .spaced (.rule .string) c d [.node .string c.offset (c.textTo d) us] ∧
      d.rest = behind ∧ IsContentNode .blockStringContent content us := by
  obtain ⟨d, us, hblock, hd, hus⟩ := exists_matches_block hrest h
  exact ⟨d, us, matches_rule_iff.mpr ⟨us, matches_choice_iff.mpr (.inl hblock), rfl⟩, hd, hus⟩

/-- A quoted string is matched as a string where no block can be matched. -/
theorem matches_string_of_quoted (hcontent : IsStringContent content)
    (hrest : c.rest = '"' :: (content ++ '"' :: behind)) (hfails : sdl.Fails .tight block c) :
    ∃ d us, sdl.Matches .spaced (.rule .string) c d [.node .string c.offset (c.textTo d) us] ∧
      d.rest = behind ∧ IsContentNode .stringContent content us := by
  obtain ⟨d, us, hquoted, hd, hus⟩ := exists_matches_quoted hcontent hrest
  exact ⟨d, us, matches_rule_iff.mpr
    ⟨us, matches_choice_iff.mpr (.inr ⟨hfails, hquoted⟩), rfl⟩, hd, hus⟩

theorem fails_block_of_not_prefix (h : ¬ blockQuotes <+: c.rest) : sdl.Fails .tight block c :=
  fails_seq_iff.mpr (.inl (fails_text_iff.mpr h))

end Whole

end Grammar
end Sdl
end EntitySdl
