import EntitySdl.Proofs.Numbers
import EntitySdl.Proofs.Pieces

/-! # Readings laid out anew

What is read in a text up to a cut is read again in a text that is alike up to the
cut, with the same outline, provided that each string ends before the cut.  Reading
keeps the two places near: from a place where they are, each word and each lexeme
leads to places where they are again.
-/
namespace EntitySdl
namespace Sdl

open Name Text Grammar Cursor Sdl.Tree

namespace Heads

/-- Whether all heads are names, or texts that begin with no blank. -/
def isInk (h : Heads) : Bool := !h.all && h.words.all fun word => !word.head?.any isBlank

theorem isInk_union {h k : Heads} (hh : h.isInk) (hk : k.isInk) : (h.union k).isInk := by
  simp only [isInk, union, Bool.and_eq_true, Bool.not_eq_true', Bool.or_eq_false_iff,
    List.all_append] at hh hk ⊢
  exact ⟨⟨hh.1, hk.1⟩, hh.2, hk.2⟩

/-- A text that begins with such a head begins with no blank. -/
theorem not_isBlank_of_begin {h : Heads} (hink : h.isInk) {cs : List Char} (hbegin : h.Begin cs) :
    ∀ c, cs.head? = some c → isBlank c = false := by
  simp only [isInk, Bool.and_eq_true, Bool.not_eq_true', List.all_eq_true] at hink
  intro c hc
  rcases hbegin with ⟨word, hword, hne, rest, hrest⟩ | ⟨-, x, rest, hcs, hx⟩ | ⟨hall, -⟩
  · have := hink.2 word hword
    obtain ⟨x, word, rfl⟩ := List.exists_cons_of_ne_nil hne
    rw [← hrest] at hc
    cases hc
    simpa using this
  · rw [hcs] at hc
    cases hc
    exact not_isBlank_of_isNamePart (by rw [isNamePart, hx, Bool.true_or])
  · rw [hink.1] at hall
    cases hall

end Heads

/-- Whether a rule is used in definitions, outside strings. -/
def Rule.isPart : Rule → Bool
  | document | finish | blockStringContent | stringContent => false
  | _ => true

/-- Whether an expression is put together from such rules and from words. -/
def isPlain : Peg Rule → Bool
  | .text chars => !chars.isEmpty && chars.all (!isBlank ·)
  | .rule r => r.isPart
  | .seq first second | .choice first second => isPlain first && isPlain second
  | .optional inner | .many inner => isPlain inner
  | .charWhere _ | .finish | .never _ => false

/-- Whether a goal is one of these. -/
def goalIsPlain : Goal Rule → Bool
  | .one e | .more e => isPlain e

theorem isPlain_body {r : Rule} (hr : r.isLexeme = false) (hpart : r.isPart) :
    isPlain (body r) := by
  have hall : ∀ r, r.isLexeme = false → r.isPart → isPlain (body r) :=
    Rule.forall_iff.mpr (by decide +kernel)
  exact hall r hr hpart

/-- Whether an expression is a word, one of several words, or a word that may be left
out. -/
def isWordlike : Peg Rule → Bool
  | .text chars => !chars.isEmpty && chars.all (!isBlank ·)
  | .choice first second => isWordlike first && isWordlike second
  | .optional inner => isWordlike inner
  | _ => false

theorem isWordlike_body {r : Rule} (hr : r.isLexeme = false) (htoken : r.isToken) :
    isWordlike (body r) := by
  have hall : ∀ r : Rule, r.isLexeme = false → r.isToken → isWordlike (body r) :=
    Rule.forall_iff.mpr (by decide)
  exact hall r hr htoken

theorem isInk_heads {e : Peg Rule} (he : isPlain e) : (heads e).isInk := by
  have hall : ∀ r : Rule, r.isPart → (heads (.rule r)).isInk :=
    Rule.forall_iff.mpr (by decide +kernel)
  induction e with
  | text chars =>
    simp only [isPlain, Bool.and_eq_true, List.all_eq_true] at he
    cases chars with
    | nil => rfl
    | cons c chars => simpa [heads, headsWith, Heads.isInk] using he.2 c List.mem_cons_self
  | rule r => exact hall r he
  | seq first second ihfirst ihsecond =>
    simp only [isPlain, Bool.and_eq_true] at he
    refine Heads.isInk_union (ihfirst he.1) ?_
    split
    · exact ihsecond he.2
    · rfl
  | choice first second ihfirst ihsecond =>
    simp only [isPlain, Bool.and_eq_true] at he
    exact Heads.isInk_union (ihfirst he.1) (ihsecond he.2)
  | optional inner ih | many inner ih => exact ih he
  | charWhere | finish | never => cases he

namespace Seam

variable {seam : Seam} {goal : Goal Rule} {c d : Cursor} {ts : List (Tree Rule)}

/-- From a place from which the next token cannot be reached, only such places are
reached. -/
theorem off_of_reads (h : Reads goal c d ts) (hplain : goalIsPlain goal) (hc : Starts goal c)
    (hoff : seam.Off (c.skip .spaced).rest) : seam.Off (d.skip .spaced).rest := by
  obtain ⟨d', h', hd'⟩ := reads_at_skip h hc
  rw [← hd']
  rcases hoff with hshort | ⟨x, hx, hblank⟩
  · refine .inl (Nat.lt_of_le_of_lt ?_ hshort)
    exact (h'.reaches.trans (skip_reaches d' .spaced)).length_le
  · have hink : (goalHeads goal).isInk := by
      cases goal with
      | one e => exact isInk_heads hplain
      | more e => exact isInk_heads hplain
    rcases Reads.goal_begins h' (skip_skip c) with hbegin | ⟨-, rfl⟩
    · rw [Heads.not_isBlank_of_begin hink hbegin x hx] at hblank
      cases hblank
    · rw [skip_skip]
      exact .inr ⟨x, hx, hblank⟩

/-- Each string ends before the cut, and if a block might end behind it, no quote
stands behind an empty string. -/
def KeepsStrings (seam : Seam) (source : List Char) (ts : List (Tree Rule)) : Prop :=
  ∀ p ∈ stringsAll ts, p.1 + p.2.length + seam.edge.length ≤ source.length ∧
    (¬ seam.KeepsBlocks → p.2 = "\"\"".toList → (source.drop (p.1 + 2)).head? ≠ some '"')

end Seam

/-- A place is one in a text. -/
def Cursor.IsIn (c : Cursor) (source : List Char) : Prop :=
  ∃ before, source = before ++ c.rest ∧ before.length = c.offset

theorem Cursor.IsIn.of_reaches {c d : Cursor} {source : List Char} (h : c.IsIn source)
    (hreaches : c.Reaches d) : d.IsIn source := by
  obtain ⟨before, hsource, hlength⟩ := h
  obtain ⟨text, hrest, hoffset⟩ := hreaches
  refine ⟨before ++ text, ?_, ?_⟩
  · rw [hsource, hrest, List.append_assoc]
  · rw [List.length_append, hlength, hoffset]

namespace Seam

variable {seam : Seam} {goal : Goal Rule} {c c' d : Cursor} {ts us : List (Tree Rule)}
  {source : List Char}

theorem KeepsStrings.left (h : seam.KeepsStrings source (ts ++ us)) :
    seam.KeepsStrings source ts := fun p hp => h p (by
  rw [stringsAll_append]
  exact List.mem_append_left _ hp)

theorem KeepsStrings.right (h : seam.KeepsStrings source (ts ++ us)) :
    seam.KeepsStrings source us := fun p hp => h p (by
  rw [stringsAll_append]
  exact List.mem_append_right _ hp)

theorem KeepsStrings.children {r : Rule} {start : Nat} {text : List Char}
    (h : seam.KeepsStrings source [.node r start text ts]) : seam.KeepsStrings source ts :=
  fun p hp => h p (by
    rw [stringsAll, stringsAll, List.append_nil, strings]
    split
    · exact List.mem_cons_of_mem _ hp
    · exact hp)

/-- A string that is kept is a string in the new text. -/
theorem kept_string_relaid (h : sdl.Matches .spaced (.rule .string) c d ts) (hc : c.IsIn source)
    (hstrings : seam.KeepsStrings source ts) (halike : seam.Alike c.rest c'.rest) :
    ∃ d' us, sdl.Matches .spaced (.rule .string) c' d' us ∧ seam.Alike d.rest d'.rest ∧
      seam.SameTrees us ts := by
  obtain ⟨before, hsource, hlength⟩ := hc
  obtain ⟨text, hrest, -⟩ := h.reaches
  obtain ⟨xs, rfl, -⟩ := string_cases h
  obtain ⟨hle, hapart⟩ := hstrings (c.offset, text) (by
    rw [stringsAll, strings, if_pos rfl, h.reaches.textTo_eq hrest]
    exact List.mem_append_left _ List.mem_cons_self)
  refine string_relaid h halike ?_ fun hkeeps hempty => ?_
  · rw [hsource, hrest, List.length_append, List.length_append, hlength] at hle
    change c.offset + text.length + _ ≤ _ at hle
    omega
  · have hquotes : text = "\"\"".toList := by
      refine List.append_cancel_right (hrest.symm.trans ?_)
      exact hempty
    have hdrop : source.drop (c.offset + 2) = d.rest := by
      rw [hsource, hrest, hquotes, ← hlength, ← List.drop_drop, List.drop_left]
      rfl
    have hnext := hapart hkeeps hquotes
    rwa [hdrop] at hnext

/-- A lexeme that ends before the cut is the same lexeme in the new text. -/
theorem lexeme_relaid {r : Rule} (hr : r.isLexeme) (hpart : r.isPart)
    (h : sdl.Matches .spaced (.rule r) c d ts) (hc : c.IsIn source)
    (hstrings : seam.KeepsStrings source ts) (halike : seam.Alike c.rest c'.rest)
    (hd : seam.resume.length ≤ d.rest.length) :
    ∃ d' us, sdl.Matches .spaced (.rule r) c' d' us ∧ seam.Alike d.rest d'.rest ∧
      seam.SameTrees us ts := by
  have hwords : ∀ (words : List String) {r : Rule} {ts},
      (sdl r).body = Peg.firstOf (words.map Peg.word) →
      (∀ word ∈ words, ∀ x ∈ word.toList, isBlank x = false) → (sdl r).mode = none →
        sdl.Matches .spaced (.rule r) c d ts →
          ∃ d' us, sdl.Matches .spaced (.rule r) c' d' us ∧ seam.Alike d.rest d'.rest ∧
            seam.SameTrees us ts := by
    intro words r ts hbody hink hmode h
    obtain ⟨xs, hchoice, rfl⟩ := matches_rule_iff.mp h
    rw [hbody] at hchoice
    obtain ⟨d', hchoice', hsame⟩ := words_relaid hchoice hink halike hd
    rw [← hbody] at hchoice'
    exact ⟨d', _, matches_rule_iff.mpr ⟨xs, hchoice', rfl⟩, hsame.alike,
      hsame.sameTrees (.refl _)⟩
  cases r with
  | name =>
    obtain ⟨d', us, h', hsame, hus⟩ := name_relaid h halike hd
    exact ⟨d', us, h', hsame.alike, hus⟩
  | typeRef => exact typeRef_relaid h halike hd
  | number => exact number_relaid h halike
  | string => exact kept_string_relaid h hc hstrings halike
  | enumValue => exact enumValue_relaid h halike hd
  | directiveLocation => exact hwords _ rfl (by decide) rfl h
  | operationType =>
    exact hwords ["query", "mutation", "subscription"] rfl (by decide) rfl h
  | blockStringContent | stringContent => cases hpart
  | _ => cases hr

/-- Behind a word or a lexeme the places are near again. -/
theorem near_of_alike {d' : Cursor} (h : seam.Alike d.rest d'.rest)
    (hd : ¬ seam.Off (d.skip .spaced).rest) :
    seam.Near (d.skip .spaced).rest (d'.skip .spaced).rest :=
  (Near.skip (.inl h)).resolve_right hd

/-- What takes a character does not begin at the token behind the cut. -/
theorem alike_of_near (h : seam.Near c.rest c'.rest) (hd : ¬ seam.Off (d.skip .spaced).rest)
    (hlt : d.rest.length < c.rest.length) : seam.Alike c.rest c'.rest := by
  refine h.resolve_right fun ⟨hresume, _⟩ => hd (.inl ?_)
  have := (skip_reaches d .spaced).length_le
  rw [← hresume]
  omega

theorem resume_le_of_not_off (hd : ¬ seam.Off (d.skip .spaced).rest) :
    seam.resume.length ≤ d.rest.length :=
  (Nat.le_of_not_lt fun hlt => hd (.inl hlt)).trans (skip_reaches d .spaced).length_le

end Seam

open Seam

variable {seam : Seam}

/-- A word leaves no nodes. -/
theorem trees_of_word {e : Peg Rule} {c d : Cursor} {ts : List (Tree Rule)}
    (h : Reads (.one e) c d ts) (he : isWordlike e) : ts = [] := by
  induction e with
  | text chars => exact (reads_text_iff.mp h).2.2
  | choice first second ihfirst ihsecond =>
    rw [isWordlike, Bool.and_eq_true] at he
    rcases reads_choice_iff.mp h with h | h
    · exact ihfirst h he.1
    · exact ihsecond h he.2
  | optional inner ih =>
    cases h with
    | present h => exact ih h he
    | absent => rfl
  | _ => cases he

/-- A word that is read is read again. -/
theorem Reads.relaid_word {e : Peg Rule} {c d c' : Cursor} {ts : List (Tree Rule)}
    (h : Reads (.one e) c d ts) (he : isWordlike e) (hd : ¬ seam.Off (d.skip .spaced).rest)
    (hc : c.skip .spaced = c) (hc' : c'.skip .spaced = c')
    (hnear : seam.Near (c.skip .spaced).rest (c'.skip .spaced).rest) :
    ∃ d', Reads (.one e) c' d' ts ∧ seam.Near (d.skip .spaced).rest (d'.skip .spaced).rest ∧
      c'.textTo d' = c.textTo d := by
  induction e with
  | text chars =>
    obtain ⟨hrest, hoffset, rfl⟩ := reads_text_iff.mp h
    simp only [isWordlike, Bool.and_eq_true, Bool.not_eq_true', List.all_eq_true] at he
    have hlt : d.rest.length < c.rest.length := by
      have := List.length_pos_iff.mpr (List.isEmpty_eq_false_iff.mp he.1)
      rw [hrest, List.length_append]
      omega
    rw [hc, hc'] at hnear
    obtain ⟨s, hs, hsame⟩ := exists_sameText (alike_of_near hnear hd hlt) hrest hoffset he.2
      (resume_le_of_not_off hd)
    exact ⟨_, .text hs rfl, near_of_alike hsame.alike hd, hsame.textTo_eq.symm⟩
  | choice first second ihfirst ihsecond =>
    rw [isWordlike, Bool.and_eq_true] at he
    rcases reads_choice_iff.mp h with h | h
    · obtain ⟨d', h', hrest⟩ := ihfirst h he.1
      exact ⟨d', .left h', hrest⟩
    · obtain ⟨d', h', hrest⟩ := ihsecond h he.2
      exact ⟨d', .right h', hrest⟩
  | optional inner ih =>
    cases h with
    | present h =>
      obtain ⟨d', h', hrest⟩ := ih h he
      exact ⟨d', .present h', hrest⟩
    | absent =>
      have hself : ∀ c : Cursor, c.textTo c = [] := fun c => (Reaches.refl c).textTo_eq rfl
      exact ⟨c', .absent, hnear, by rw [hself, hself]⟩
  | _ => cases he

/-- A relation between the nodes of two texts, of which the sizes are given, that holds
for lexemes with the same outline and for nodes that stand at near places. -/
structure Seam.Relates (seam : Seam) (size size' : Nat)
    (same : List (Tree Rule) → List (Tree Rule) → Prop) : Prop where
  /-- Without nodes there is nothing to compare. -/
  nil : same [] []
  /-- Nodes are compared one by one. -/
  append {us ts vs ws} (h : same us ts) (h' : same vs ws) : same (us ++ vs) (ts ++ ws)
  /-- Lexemes are compared by what they say. -/
  lexeme {r c d c' d' us ts} (hr : r.isLexeme) (h : sdl.Matches .spaced (.rule r) c d ts)
    (h' : sdl.Matches .spaced (.rule r) c' d' us) (hus : seam.SameTrees us ts) : same us ts
  /-- Other nodes are compared by their places and what is inside them. -/
  node {r us ts} {c c' : Cursor} {text text' : List Char} (hr : r.isLexeme = false)
    (hsize : c.offset + c.rest.length = size) (hsize' : c'.offset + c'.rest.length = size')
    (hnear : seam.Near c.rest c'.rest) (htoken : r.isToken → text' = text) (h : same us ts) :
    same [.node r c'.offset text' us] [.node r c.offset text ts]

theorem isOutlined_of_not_isLexeme {r : Rule} (hr : r.isLexeme = false) : r.isOutlined = false := by
  cases r <;> first | rfl | cases hr

/-- Having the same outline is such a relation. -/
theorem Seam.relates_sameTrees (size size' : Nat) :
    seam.Relates size size' seam.SameTrees where
  nil := .refl []
  append := .append
  lexeme _ _ _ hus := hus
  node hr _ _ _ htoken h :=
    h.node (fun hr' => by simp [isOutlined_of_not_isLexeme hr] at hr') fun _ => htoken

/-- A place is as far from the end of its text as the text is long behind it. -/
theorem Cursor.IsIn.offset_add {c : Cursor} {source : List Char} (h : c.IsIn source) :
    c.offset + c.rest.length = source.length := by
  obtain ⟨before, hsource, hlength⟩ := h
  rw [hsource, List.length_append, hlength]

/-- **What is read is read again where the text is laid out anew.**  The nodes are related
as those of the two texts are, and the places behind them are near. -/
theorem Reads.relaid {goal : Goal Rule} {c d : Cursor} {ts : List (Tree Rule)}
    (h : Reads goal c d ts) (hplain : goalIsPlain goal) {source : List Char} (hin : c.IsIn source)
    (hstrings : seam.KeepsStrings source ts) (hd : ¬ seam.Off (d.skip .spaced).rest) {c' : Cursor}
    (hc : Starts goal c) (hc' : Starts goal c')
    (hnear : seam.Near (c.skip .spaced).rest (c'.skip .spaced).rest) {size : Nat}
    (hsize : c'.offset + c'.rest.length = size)
    {same : List (Tree Rule) → List (Tree Rule) → Prop}
    (hsame : seam.Relates source.length size same) :
    ∃ d' us, Reads goal c' d' us ∧ seam.Near (d.skip .spaced).rest (d'.skip .spaced).rest ∧
      same us ts := by
  induction h using Reads.induct generalizing c' with
  | @text chars c d hrest hoffset =>
    obtain ⟨d', h', hnear', -⟩ :=
      Reads.relaid_word (.text hrest hoffset) hplain hd hc hc' hnear
    exact ⟨d', [], h', hnear', hsame.nil⟩
  | @lexeme r c d ts hr h =>
    rw [Starts] at hc hc'
    rw [hc, hc'] at hnear
    have hempty : mayBeEmptyRule r = false := by
      have hall : ∀ r : Rule, r.isLexeme → r.isPart → mayBeEmptyRule r = false :=
        Rule.forall_iff.mpr (by decide)
      exact hall r hr hplain
    obtain ⟨d', us, h', halike, hus⟩ := lexeme_relaid hr hplain h hin hstrings
      (alike_of_near hnear hd (h.length_lt sdl_bounded.empties hempty)) (resume_le_of_not_off hd)
    exact ⟨d', us, .token hr h', near_of_alike halike hd, hsame.lexeme hr h h' hus⟩
  | @rule r c d ts hr h ih =>
    have hnear' : seam.Near c.rest c'.rest := by
      rw [Starts] at hc hc'
      rwa [hc, hc'] at hnear
    by_cases htoken : r.isToken
    · obtain ⟨d', h', hnear'', htext⟩ :=
        Reads.relaid_word h (isWordlike_body hr htoken) hd hc hc' hnear
      obtain rfl := trees_of_word h (isWordlike_body hr htoken)
      exact ⟨d', _, .rule hr h', hnear'',
        hsame.node hr hin.offset_add hsize hnear' (fun _ => htext) hsame.nil⟩
    · obtain ⟨d', us, h', hnear'', hus⟩ :=
        ih (isPlain_body hr hplain) hin hstrings.children hd hc hc' hnear hsize
      exact ⟨d', _, .rule hr h', hnear'',
        hsame.node hr hin.offset_add hsize hnear' (fun h => absurd h htoken) hus⟩
  | @seq first second c m d ts us hfirst hsecond ihfirst ihsecond =>
    simp only [goalIsPlain, isPlain, Bool.and_eq_true] at hplain
    -- what is off behind the first part is off behind the second
    have hm : ¬ seam.Off (m.skip .spaced).rest := fun hoff =>
      hd (off_of_reads hsecond hplain.2 (skip_skip m) (by rwa [skip_skip]))
    obtain ⟨m', us', hfirst', hnear', hus'⟩ :=
      ihfirst hplain.1 hin hstrings.left hm hc hc' hnear hsize
    have hin' := hin.of_reaches (hfirst.reaches.trans (skip_reaches m .spaced))
    have hsize' := (hfirst'.reaches.trans (skip_reaches m' .spaced)).offset_add.trans hsize
    obtain ⟨d', vs', hsecond', hnear'', hvs'⟩ :=
      ihsecond hplain.2 hin' hstrings.right hd (skip_skip m) (skip_skip m')
        (by rwa [skip_skip, skip_skip]) hsize'
    exact ⟨d', _, .seq hfirst' hsecond', hnear'', hsame.append hus' hvs'⟩
  | left _ ih =>
    simp only [goalIsPlain, isPlain, Bool.and_eq_true] at hplain
    obtain ⟨d', us, h', hrest⟩ := ih hplain.1 hin hstrings hd hc hc' hnear hsize
    exact ⟨d', us, .left h', hrest⟩
  | right _ ih =>
    simp only [goalIsPlain, isPlain, Bool.and_eq_true] at hplain
    obtain ⟨d', us, h', hrest⟩ := ih hplain.2 hin hstrings hd hc hc' hnear hsize
    exact ⟨d', us, .right h', hrest⟩
  | present _ ih =>
    obtain ⟨d', us, h', hrest⟩ := ih hplain hin hstrings hd hc hc' hnear hsize
    exact ⟨d', us, .present h', hrest⟩
  | absent => exact ⟨c', [], .absent, hnear, hsame.nil⟩
  | none => exact ⟨c', [], .none, hnear, hsame.nil⟩
  | stop => exact ⟨c', [], .stop, hnear, hsame.nil⟩
  | @some e c m d ts us hfirst hmore ihfirst ihmore =>
    have hm : ¬ seam.Off (m.skip .spaced).rest := fun hoff =>
      hd (off_of_reads hmore hplain trivial hoff)
    obtain ⟨m', us', hfirst', hnear', hus'⟩ :=
      ihfirst hplain hin hstrings.left hm hc hc' hnear hsize
    obtain ⟨d', vs', hmore', hnear'', hvs'⟩ :=
      ihmore hplain (hin.of_reaches hfirst.reaches) hstrings.right hd trivial trivial hnear'
        (hfirst'.reaches.offset_add.trans hsize)
    exact ⟨d', _, .some hfirst' hmore', hnear'', hsame.append hus' hvs'⟩
  | @again e c m d ts us hfirst hmore ihfirst ihmore =>
    have hm : ¬ seam.Off (m.skip .spaced).rest := fun hoff =>
      hd (off_of_reads hmore hplain trivial hoff)
    have hin' := hin.of_reaches (skip_reaches c .spaced)
    have hsize' := (skip_reaches c' .spaced).offset_add.trans hsize
    obtain ⟨m', us', hfirst', hnear', hus'⟩ := ihfirst hplain hin' hstrings.left hm
      (skip_skip c) (skip_skip c') (by rwa [skip_skip, skip_skip]) hsize'
    obtain ⟨d', vs', hmore', hnear'', hvs'⟩ :=
      ihmore hplain (hin'.of_reaches hfirst.reaches) hstrings.right hd trivial trivial hnear'
        (hfirst'.reaches.offset_add.trans hsize')
    exact ⟨d', _, .again hfirst' hmore', hnear'', hsame.append hus' hvs'⟩
  | charWhere | finish | never => cases hplain

end Sdl
end EntitySdl
