import EntitySdl.Proofs.MergedSources
import EntitySdl.Proofs.MovedTrees
import EntitySdl.Proofs.PartedDefinitions

/-! # Reading a text with comments put in

Definitions before the comments are read as they were, since the comments stand on lines
of their own: no word, no lexeme and no string goes on there, and no block ends there
that would not have ended.  The definitions behind them are read as they stand, at
places that are moved.
-/
namespace EntitySdl
namespace Sdl

open Name Text Grammar Cursor Sdl.Tree

namespace Grammar

/-- Definitions that stand one behind the other from one place to another. -/
inductive DefinitionsTo : Cursor → Cursor → List (Tree Rule) → Prop where
  /-- There are none. -/
  | none {c} : DefinitionsTo c c []
  /-- A definition is read, and others behind it. -/
  | next {c d e t ts} (h : Reads (.one (.rule .definition)) c d [t])
      (hrest : DefinitionsTo (d.skip .spaced) e ts) : DefinitionsTo c e (t :: ts)

section Parts

variable {source rest : List Char} {c m : Cursor} {t : Tree Rule} {ts us : List (Tree Rule)}

theorem DefinitionsTo.append (h : DefinitionsTo c m ts) (h' : Definitions m us) :
    Definitions c (ts ++ us) := by
  induction h with
  | none => exact h'
  | next h _ ih => exact .next h (ih h')

theorem DefinitionsTo.reaches (h : DefinitionsTo c m ts) : c.Reaches m := by
  induction h with
  | none => exact .refl _
  | @next c d _ _ _ h _ ih => exact (h.reaches.trans (skip_reaches d .spaced)).trans ih

theorem DefinitionsTo.rules (h : DefinitionsTo c m ts) : ∀ t ∈ ts, t.rule = .definition := by
  induction h with
  | none => simp
  | next h _ ih => exact List.forall_mem_cons.mpr ⟨definition_rule h, ih⟩

/-- The strings in definitions stand between the places. -/
theorem DefinitionsTo.stringBetween (h : DefinitionsTo c m ts) {p : Nat × List Char}
    (hp : p ∈ stringsAll ts) : StringBetween c m p := by
  induction h with
  | none => cases hp
  | @next c d _ t ts h hrest ih =>
    have hskip := skip_reaches d .spaced
    rw [stringsAll, List.mem_append] at hp
    rcases hp with hp | hp
    · have hstring : p ∈ stringsAll [t] := by rwa [stringsAll, stringsAll, List.append_nil]
      exact (stringBetween_of_reads h hstring).behind (hskip.trans hrest.reaches)
    · exact (ih hp).before (h.reaches.trans hskip)

/-- Definitions fall apart before each of them. -/
theorem Definitions.exists_before (h : Definitions c ts) (hc : c.skip .spaced = c) (ht : t ∈ ts) :
    ∃ m before behind, ts = before ++ behind ∧ DefinitionsTo c m before ∧ Definitions m behind ∧
      m.skip .spaced = m ∧ m.offset = t.start := by
  induction h with
  | done => cases ht
  | @next c d u ts h hrest ih =>
    rcases List.mem_cons.mp ht with rfl | ht
    · exact ⟨c, [], _, rfl, .none, .next h hrest, hc,
        (((Definitions.next h hrest).standsBehind hc).1 _ rfl).symm⟩
    · obtain ⟨m, before, behind, rfl, hbefore, hbehind, hm⟩ := ih (skip_skip d) ht
      exact ⟨m, u :: before, behind, rfl, .next h hbefore, hbehind, hm⟩

/-- They go on to the end of the text. -/
theorem Definitions.exists_end (h : Definitions c ts) (hc : c.skip .spaced = c) :
    ∃ m, DefinitionsTo c m ts ∧ m.rest = [] ∧ m.skip .spaced = m := by
  induction h with
  | @done c hend => exact ⟨c, .none, hend, hc⟩
  | @next c d t ts h hrest ih =>
    obtain ⟨m, hto, hend⟩ := ih (skip_skip d)
    exact ⟨m, .next h hto, hend⟩

/-- Definitions fall apart at a place where one of them begins, or at the end. -/
theorem Definitions.exists_parts (h : Definitions c ts) (hc : c.skip .spaced = c)
    (hin : c.IsIn source) {front : List Char} (hsource : source = front ++ rest)
    (hplace : rest = [] ∨ ∃ t ∈ ts, t.start = front.length) :
    ∃ m before behind, ts = before ++ behind ∧ DefinitionsTo c m before ∧ Definitions m behind ∧
      m.skip .spaced = m ∧ m.rest = rest ∧ m.offset = front.length := by
  rcases hplace with rfl | ⟨t, ht, hstart⟩
  · obtain ⟨m, hto, hend, hm⟩ := h.exists_end hc
    have hsize := (hin.of_reaches hto.reaches).offset_add
    rw [hend, hsource, List.append_nil] at hsize
    exact ⟨m, ts, [], by simp, hto, .done hend, hm, hend, hsize⟩
  · obtain ⟨m, before, behind, hts, hto, hbehind, hm, hoffset⟩ := h.exists_before hc ht
    obtain ⟨text, htext, hlength⟩ := hin.of_reaches hto.reaches
    rw [hsource] at htext
    have hrest := List.append_inj_right htext (by omega)
    exact ⟨m, before, behind, hts, hto, hbehind, hm, hrest.symm, by omega⟩

/-- A definition begins at a place, or the text ends there. -/
theorem Definitions.begins (h : Definitions m us) (hm : m.skip .spaced = m) :
    m.rest = [] ∨ definitionHeads.Begin m.rest := by
  cases h with
  | done hend => exact .inl hend
  | next h _ => exact .inr (definition_begins hm h)

end Parts

section Relaid

variable {seam : Seam} {source : List Char} {c c' m : Cursor} {ts : List (Tree Rule)}

theorem DefinitionsTo.off (h : DefinitionsTo c m ts) (hc : c.skip .spaced = c)
    (hoff : seam.Off c.rest) : seam.Off m.rest := by
  induction h with
  | none => exact hoff
  | @next c d e t ts h _ ih =>
    exact ih (skip_skip d) (Seam.off_of_reads h rfl hc (by rwa [hc]))

/-- **Definitions up to a place are read again where the text is laid out anew.** -/
theorem DefinitionsTo.relaid (h : DefinitionsTo c m ts) (hc : c.skip .spaced = c)
    (hin : c.IsIn source) (hm : ¬ seam.Off m.rest) (hstrings : seam.KeepsStrings source ts)
    (hc' : c'.skip .spaced = c') (hnear : seam.Near c.rest c'.rest) {size : Nat}
    (hsize : c'.offset + c'.rest.length = size)
    {same : List (Tree Rule) → List (Tree Rule) → Prop}
    (hsame : seam.Relates source.length size same) :
    ∃ m' us, DefinitionsTo c' m' us ∧ m'.skip .spaced = m' ∧ seam.Near m.rest m'.rest ∧
      same us ts := by
  induction h generalizing c' with
  | none => exact ⟨c', [], .none, hc', hnear, hsame.nil⟩
  | @next c d e t ts h hrest ih =>
    have hskip := skip_reaches d .spaced
    have hd : ¬ seam.Off (d.skip .spaced).rest := fun hoff => hm (hrest.off (skip_skip d) hoff)
    rw [← List.singleton_append] at hstrings
    obtain ⟨d', us, h', hnear', hus⟩ := Reads.relaid h rfl hin hstrings.left hd hc hc'
      (by rwa [hc, hc']) hsize hsame
    have hsize' := (h'.reaches.trans (skip_reaches d' .spaced)).offset_add.trans hsize
    obtain ⟨m', vs, hto, hm', hnear'', hvs⟩ := ih (skip_skip d)
      (hin.of_reaches (h.reaches.trans hskip)) hm hstrings.right (skip_skip d') hnear' hsize'
    obtain ⟨xs, -, rfl⟩ := (reads_rule_iff rfl).mp h'
    exact ⟨m', _, .next h' hto, hm', hnear'', hsame.append hus hvs⟩

end Relaid

end Grammar

section Blocks

variable {cs behind : List Char}

/-- A text on one line that stands before a line feed stands on its line. -/
theorem prefix_of_line {word line : List Char} (hword : '\n' ∉ word)
    (h : word <+: line ++ '\n' :: cs) : ∃ more, line = word ++ more := by
  obtain ⟨behind, hsplit⟩ := h
  rcases List.append_eq_append_iff.mp hsplit with ⟨more, hline, -⟩ | ⟨more, hmore, hbehind⟩
  · exact ⟨more, hline⟩
  · cases more with
    | nil => exact ⟨[], by rw [hmore, List.append_nil, List.append_nil]⟩
    | cons x more =>
      obtain rfl := (List.cons.inj hbehind).1
      exact absurd (by simp [hmore]) hword

theorem not_feed_of_blockQuotes : '\n' ∉ blockQuotes := by decide

theorem not_feed_of_escapedQuotes : '\n' ∉ escapedQuotes := by decide

/-- A block that does not end on a line ends behind it. -/
theorem EndsBlock.behind_line {line : List Char} (h : EndsBlock (line ++ '\n' :: cs) behind)
    (hblock : ¬ blockQuotes <:+: line) : EndsBlock cs behind := by
  generalize htext : line ++ '\n' :: cs = text at h
  induction h generalizing line with
  | close =>
    obtain ⟨more, rfl⟩ := prefix_of_line not_feed_of_blockQuotes ⟨_, htext.symm⟩
    exact absurd ⟨[], more, rfl⟩ hblock
  | escape _ =>
    obtain ⟨more, rfl⟩ := prefix_of_line not_feed_of_escapedQuotes ⟨_, htext.symm⟩
    exact absurd ⟨['\\'], more, rfl⟩ hblock
  | char _ _ h ih =>
    cases line with
    | nil =>
      cases htext
      exact h
    | cons x line =>
      obtain ⟨rfl, rfl⟩ := List.cons.inj htext
      exact ih (fun hmore => hblock (hmore.trans (List.suffix_cons x line).isInfix)) rfl

/-- Comments without the quotes of a block end none. -/
theorem EndsBlock.behind_comments {comments : List (List Char)}
    (hblocks : ∀ body ∈ comments, ¬ blockQuotes <:+: body)
    (h : EndsBlock (commentLines comments ++ cs) behind) : EndsBlock cs behind := by
  induction comments with
  | nil => exact h
  | cons body comments ih =>
    rw [List.forall_mem_cons] at hblocks
    rw [commentLines_cons, List.cons_append, List.append_assoc, ← List.cons_append] at h
    refine ih hblocks.2 (EndsBlock.behind_line h fun hinfix => ?_)
    -- the comment mark is no quote
    rcases List.infix_cons_iff.mp hinfix with ⟨more, hmore⟩ | hinfix
    · cases hmore
    · exact hblocks.1 hinfix

/-- So a block that ends in a text with comments on a line of their own ends without
them. -/
theorem EndsBlock.without_comments {comments : List (List Char)}
    (hblocks : ∀ body ∈ comments, ¬ blockQuotes <:+: body) {before : List Char}
    (h : EndsBlock (before ++ '\n' :: (commentLines comments ++ cs)) behind) :
    ∃ behind, EndsBlock (before ++ '\n' :: cs) behind := by
  generalize htext : before ++ '\n' :: (commentLines comments ++ cs) = text at h
  induction h generalizing before with
  | close =>
    obtain ⟨more, rfl⟩ := prefix_of_line not_feed_of_blockQuotes ⟨_, htext.symm⟩
    exact ⟨_, by rw [List.append_assoc]; exact .close⟩
  | escape _ ih =>
    obtain ⟨more, rfl⟩ := prefix_of_line not_feed_of_escapedQuotes ⟨_, htext.symm⟩
    rw [List.append_assoc] at htext
    obtain ⟨behind', hends⟩ := ih (List.append_cancel_left htext)
    exact ⟨behind', by rw [List.append_assoc]; exact .escape hends⟩
  | char hclose hescape h ih =>
    cases before with
    | nil =>
      cases htext
      exact ⟨_, (Seam.endsBlock_cons_iff isBlank_of_lineFeed).mpr (h.behind_comments hblocks)⟩
    | cons x before =>
      obtain ⟨rfl, rfl⟩ := List.cons.inj htext
      obtain ⟨behind', hends⟩ := ih rfl
      have hpre : ∀ {word : List Char}, '\n' ∉ word →
          ¬ word <+: x :: (before ++ '\n' :: (commentLines comments ++ cs)) →
            ¬ word <+: x :: (before ++ '\n' :: cs) := by
        intro word hword hnot hpre
        obtain ⟨more, hmore⟩ := @prefix_of_line cs word (x :: before) hword hpre
        refine hnot ?_
        rw [← List.cons_append, hmore, List.append_assoc]
        exact List.prefix_append _ _
      exact ⟨behind', .char (hpre not_feed_of_blockQuotes hclose)
        (hpre not_feed_of_escapedQuotes hescape) hends⟩

end Blocks

/-- Blanks that may stand before a definition on its line. -/
def IsIndent (cs : List Char) : Prop := ∀ c ∈ cs, c = ' ' ∨ c = '\t'

/-- An indentation is recognised character by character. -/
instance (cs : List Char) : Decidable (IsIndent cs) :=
  inferInstanceAs (Decidable (∀ c ∈ cs, c = ' ' ∨ c = '\t'))

/-- Texts of comments, each of which stays on its line. -/
def AreComments (comments : List (List Char)) : Prop :=
  ∀ body ∈ comments, ∀ c ∈ body, isLineEnd c = false

/-- So is a comment that stays on its line. -/
instance (comments : List (List Char)) : Decidable (AreComments comments) :=
  inferInstanceAs (Decidable (∀ body ∈ comments, ∀ c ∈ body, isLineEnd c = false))

section Skipping

variable {comments : List (List Char)} {indent : List Char}

theorem IsIndent.isBlankText (h : IsIndent indent) : IsBlankText indent := by
  intro c hc
  rcases h c hc with rfl | rfl <;> decide

theorem IsIndent.not_mem (h : IsIndent indent) {c : Char} (hspace : c ≠ ' ') (htab : c ≠ '\t') :
    c ∉ indent := fun hc => (h c hc).elim hspace htab

theorem AreComments.not_feed (h : AreComments comments) : ∀ body ∈ comments, '\n' ∉ body := by
  intro body hbody hmem
  cases h body hbody _ hmem

/-- Before a definition on its line nothing is read. -/
theorem IsIndent.behindIgnored_rest (h : IsIndent indent) (offset offset' : Nat) (cs : List Char) :
    (behindIgnored false offset (indent ++ cs)).rest = (behindIgnored false offset' cs).rest := by
  induction indent generalizing offset with
  | nil => exact Cursor.behindIgnored_rest false _ _ cs
  | cons c indent ih =>
    have hc : isSeparator c := by
      rcases h c List.mem_cons_self with rfl | rfl <;> decide
    rw [List.cons_append, behindIgnored, if_pos hc]
    exact ih (fun d hd => h d (List.mem_cons_of_mem _ hd)) _

/-- Nor is anything in comments. -/
theorem AreComments.behindIgnored_rest (h : AreComments comments) (offset offset' : Nat)
    (cs : List Char) : (behindIgnored false offset (commentLines comments ++ cs)).rest =
      (behindIgnored false offset' cs).rest := by
  induction comments generalizing offset with
  | nil => exact Cursor.behindIgnored_rest false _ _ cs
  | cons body comments ih =>
    obtain ⟨hbody, hcomments⟩ := List.forall_mem_cons.mp h
    rw [commentLines_cons, List.cons_append, List.append_assoc, List.cons_append]
    change (behindIgnored true (offset + 1)
      (body ++ '\n' :: (commentLines comments ++ cs))).rest = _
    rw [behindIgnored_comment hbody]
    exact ih hcomments _

end Skipping

/-- A seam before the line of a definition, where comments are put in. -/
structure IsCommentSeam (seam : Seam) (comments : List (List Char)) (indent rest : List Char) :
    Prop where
  /-- The text before it stays as it is. -/
  gaps : seam.gaps = false
  /-- A line feed comes first, and the indentation of the definition. -/
  edge : seam.edge = '\n' :: (indent ++ rest)
  /-- The definition goes on behind them. -/
  resume : seam.resume = rest
  /-- So it does behind the comments. -/
  next : seam.next = rest
  /-- The comments stand on lines of their own. -/
  tail : seam.tail = '\n' :: (commentLines comments ++ (indent ++ rest))

section Seams

variable {comments : List (List Char)} {before indent rest : List Char} {seam : Seam}

theorem exists_commentSeam (hcomments : AreComments comments) (hindent : IsIndent indent)
    (hsolid : isSolidStart rest) (hrest : rest = [] ∨ definitionHeads.Begin rest) :
    ∃ seam, IsCommentSeam seam comments indent rest := by
  have hblanks : IsBlankText ('\n' :: indent) :=
    List.forall_mem_cons.mpr ⟨isBlank_of_lineFeed, hindent.isBlankText⟩
  have hshade : IsShade ('\n' :: indent) := by
    have := IsShade.nil.blanks hblanks
    rwa [List.append_nil] at this
  have hreturns : ReturnsEndComments ('\n' :: indent) := by
    intro front body behind hsplit
    have hmark : '#' ∈ '\n' :: indent := by simp [hsplit]
    exact absurd (hblanks _ hmark) (by decide)
  have hfeeds : ∀ c, ('\n' :: (commentLines comments ++ (indent ++ rest))).head? = some c →
      c = '\n' := by
    rintro _ ⟨⟩
    rfl
  obtain ⟨seam, hedge, hresume, htail, hgaps⟩ := exists_seam hshade
    (fun c hc => hblanks c (List.mem_of_head? hc)) hreturns hsolid hrest hfeeds
  refine ⟨seam, hgaps, by rw [Seam.edge, hedge, hresume]; rfl, hresume, ?_, htail⟩
  have hskip : (behindIgnored false 0 rest).rest = rest :=
    congrArg Cursor.rest (skip_eq_self_iff (c := ⟨0, rest⟩).mpr hsolid)
  rw [Seam.next, htail]
  change (behindIgnored false 1 (commentLines comments ++ (indent ++ rest))).rest = rest
  rw [hcomments.behindIgnored_rest 1 0, hindent.behindIgnored_rest 0 0, hskip]

/-- Comments without the quotes of a block keep the blocks. -/
theorem IsCommentSeam.keepsBlocks (h : IsCommentSeam seam comments indent rest)
    (hblocks : ∀ body ∈ comments, ¬ blockQuotes <:+: body) : seam.KeepsBlocks := by
  rintro r r' halike ⟨behind, hends⟩
  obtain ⟨before, rfl, rfl⟩ := halike.exists_before h.gaps
  rw [h.tail] at hends
  rw [h.edge]
  exact hends.without_comments hblocks

/-- Near places are moved as the lines that are put in move them. -/
theorem IsCommentSeam.moved_of_near (h : IsCommentSeam seam comments indent rest) {c c' : Cursor}
    (hsize : c.offset + c.rest.length = (before ++ '\n' :: (indent ++ rest)).length)
    (hsize' : c'.offset + c'.rest.length =
      (before ++ '\n' :: (commentLines comments ++ (indent ++ rest))).length)
    (hnear : seam.Near c.rest c'.rest) :
    c'.offset = moved (before.length + 1) (commentLines comments).length c.offset := by
  simp only [List.length_append, List.length_cons] at hsize hsize'
  rcases hnear with halike | ⟨hc, hc'⟩
  · obtain ⟨more, hc, hc'⟩ := halike.exists_before h.gaps
    rw [hc, h.edge] at hsize
    rw [hc', h.tail] at hsize'
    simp only [List.length_append, List.length_cons] at hsize hsize'
    rw [moved_of_lt (by omega)]
    omega
  · rw [hc, h.resume] at hsize
    rw [hc', h.next] at hsize'
    rw [moved_of_le (by omega)]
    omega

/-- The texts are near from their first token on, unless the place behind the comments cannot
be reached. -/
theorem IsCommentSeam.near_start (h : IsCommentSeam seam comments indent rest)
    (before : List Char) :
    seam.Near (Cursor.skip ⟨0, before ++ '\n' :: (indent ++ rest)⟩ .spaced).rest
        (Cursor.skip ⟨0, before ++ '\n' :: (commentLines comments ++ (indent ++ rest))⟩
          .spaced).rest ∨
      seam.Off (Cursor.skip ⟨0, before ++ '\n' :: (indent ++ rest)⟩ .spaced).rest := by
  have halike : seam.Alike (before ++ '\n' :: (indent ++ rest))
      (before ++ '\n' :: (commentLines comments ++ (indent ++ rest))) := by
    rw [← h.edge, ← h.tail]
    exact Seam.alike_append before .edge
  exact halike.behindIgnored false 0 0

/-- The place behind the comments can be reached from where a definition begins there. -/
theorem IsCommentSeam.not_off (h : IsCommentSeam seam comments indent rest)
    (hbegin : rest = [] ∨ definitionHeads.Begin rest) : ¬ seam.Off rest := by
  rintro (hlt | ⟨x, hx, hblank⟩)
  · rw [h.resume] at hlt
    exact Nat.lt_irrefl _ hlt
  · rcases hbegin with rfl | hbegin
    · cases hx
    · rw [not_isBlank_of_definition hbegin x hx] at hblank
      cases hblank

end Seams

section Definitions

variable {c d m : Cursor} {t : Tree Rule} {ts : List (Tree Rule)}
  {source before front indent rest : List Char} {comments : List (List Char)}

/-- The fields of a definition stand inside it. -/
theorem le_fieldStarts (hc : c.skip .spaced = c) (h : Reads (.one (.rule .definition)) c d [t]) :
    ∀ p ∈ fieldStarts t, c.offset ≤ p := by
  intro p hp
  cases hbody : bodyOf? t with
  | none =>
    rw [bodyOf?] at hbody
    rw [fieldStarts, hbody] at hp
    cases hp
  | some fields =>
    obtain ⟨m, hm, hread, hrule, -⟩ := exists_body hc h hbody
    obtain ⟨first, last, hfirst, hskip, hfields, -⟩ := exists_fields hread hrule
    have hstands := (standsBehind_of_oneOrMore rfl rfl hskip hfields).2
    rw [fieldStarts_of_body hbody fun field hfield => (hstands field hfield).1] at hp
    obtain ⟨field, hfield, rfl⟩ := List.mem_map.mp hp
    obtain ⟨_, _, _, -, hstart, -⟩ := (hstands field hfield).2
    obtain ⟨_, -, hoffset⟩ := hm.trans hfirst
    omega

/-- Definitions stand behind a place, and so do their fields. -/
theorem Grammar.Definitions.le_starts (h : Definitions c ts) (hc : c.skip .spaced = c) :
    ∀ t ∈ ts, c.offset ≤ t.start ∧ ∀ p ∈ fieldStarts t, t.start ≤ p := by
  induction h with
  | done => simp
  | @next c d t ts h hrest ih =>
    have hstart := ((Definitions.next h hrest).standsBehind hc).1 t rfl
    obtain ⟨_, -, hoffset⟩ := h.reaches.trans (skip_reaches d .spaced)
    refine List.forall_mem_cons.mpr ⟨⟨hstart.ge, ?_⟩, fun u hu => ?_⟩
    · rw [hstart]
      exact le_fieldStarts hc h
    · obtain ⟨hle, hfields⟩ := ih (skip_skip d) u hu
      exact ⟨by omega, hfields⟩

/-- Behind the lines that are put in, definitions are moved. -/
theorem isMoved_behind (h : Definitions m ts) (hm : m.skip .spaced = m) {start : Nat}
    (hstart : start ≤ m.offset) (more : Nat) :
    List.Forall₂ (IsMoved (moved start more)) (relocateAll (· + more) ts) ts := by
  rw [relocateAll_eq_map, List.forall₂_map_left_iff, List.forall₂_same]
  intro t ht
  have hrule := h.rules t ht
  obtain ⟨hle, hfields⟩ := h.le_starts hm t ht
  have hmoved := isMoved_of_layout hrule (layout_relocate (· + more) t)
  refine ⟨hmoved.outline, hmoved.start.trans (moved_of_le (by omega)).symm,
    hmoved.fields.trans (List.map_congr_left fun p hp => ?_)⟩
  have := hfields p hp
  exact (moved_of_le (by omega)).symm

section BeforeComments

variable {seam : Seam}

/-- The strings before the line of a definition end before it. -/
theorem IsCommentSeam.keepsStrings (h : IsCommentSeam seam comments indent rest)
    (hin : c.IsIn source) (hto : DefinitionsTo c m ts) (hm : m.rest = rest)
    (hindent : IsIndent indent) (hsource : source = before ++ '\n' :: (indent ++ rest))
    (hquotes : (∀ body ∈ comments, ¬ blockQuotes <:+: body) ∨ ∀ p ∈ stringsAll ts,
      p.1 < before.length → p.2 = "\"\"".toList → (source.drop (p.1 + 2)).head? ≠ some '"') :
    seam.KeepsStrings source ts := by
  intro p hp
  obtain ⟨front, text, behind, hstring, rfl, hle⟩ := hto.stringBetween hp
  obtain ⟨ahead, hahead, hlength⟩ := hin
  have hsplit : source = (ahead ++ (front ++ text)) ++ '"' :: behind := by
    rw [hahead, hstring]
    simp only [List.append_assoc]
  have hsize := congrArg List.length hsplit
  rw [hsource, hm] at *
  simp only [List.length_append, List.length_cons] at hsize
  -- the quote at the end of the string is no blank
  have hbehind : (indent ++ rest).length + 1 ≤ behind.length := by
    by_contra hlt
    rw [List.length_append] at hlt
    have hquote := congrArg (·[(ahead ++ (front ++ text)).length]?) hsplit
    simp only [List.getElem?_append_right le_rfl, Nat.sub_self, List.getElem?_cons_zero] at hquote
    rw [List.getElem?_append_right (by simp only [List.length_append]; omega),
      ← List.cons_append, List.getElem?_append_left (by
        simp only [List.length_append, List.length_cons]
        omega)] at hquote
    rcases List.mem_cons.mp (List.mem_of_getElem? hquote) with hfeed | hmem
    · cases hfeed
    · exact hindent.not_mem (by decide) (by decide) hmem
  rw [h.edge]
  simp only [List.length_append, List.length_cons, List.length_nil] at hbehind ⊢
  refine ⟨by omega, fun hkeeps hempty => ?_⟩
  exact hquotes.resolve_left (mt h.keepsBlocks hkeeps) _ hp (by simp only; omega) hempty

/-- Definitions before the comments are read again, up to the place behind them. -/
theorem IsCommentSeam.exists_before (h : IsCommentSeam seam comments indent rest)
    (hsource : source = before ++ '\n' :: (indent ++ rest)) (hindent : IsIndent indent)
    (hbegin : rest = [] ∨ definitionHeads.Begin rest)
    (hto : DefinitionsTo (Cursor.skip ⟨0, source⟩ .spaced) m ts) (hm : m.rest = rest)
    (hoffset : before.length + 1 ≤ m.offset)
    (hquotes : (∀ body ∈ comments, ¬ blockQuotes <:+: body) ∨ ∀ p ∈ stringsAll ts,
      p.1 < before.length → p.2 = "\"\"".toList → (source.drop (p.1 + 2)).head? ≠ some '"') :
    ∃ us, DefinitionsTo
        (Cursor.skip ⟨0, before ++ '\n' :: (commentLines comments ++ (indent ++ rest))⟩ .spaced)
        (m.shift (commentLines comments).length) us ∧
      List.Forall₂ (IsMoved (moved (before.length + 1) (commentLines comments).length)) us ts := by
  subst hsource
  have hin := isIn_start (before ++ '\n' :: (indent ++ rest))
  have hin' := isIn_start (before ++ '\n' :: (commentLines comments ++ (indent ++ rest)))
  have hoff : ¬ seam.Off m.rest := by
    rw [hm]
    exact h.not_off hbegin
  have hnear := (h.near_start before).resolve_right fun hstart =>
    hoff (hto.off (skip_skip _) hstart)
  obtain ⟨m', us, hto', hm', hnear', hus⟩ := hto.relaid (skip_skip _) hin hoff
    (h.keepsStrings hin hto hm hindent rfl hquotes) (skip_skip _) hnear hin'.offset_add
    (Seam.relates_layout h.moved_of_near)
  have hplace : m' = m.shift (commentLines comments).length := by
    have hmoved := h.moved_of_near (hin.of_reaches hto.reaches).offset_add
      (hin'.of_reaches hto'.reaches).offset_add hnear'
    rw [moved_of_le hoffset] at hmoved
    rw [hm, ← h.resume] at hnear'
    have hrest := hnear'.eq_next (skip_eq_self_iff.mp hm')
    rw [h.next, ← hm] at hrest
    cases m'
    exact congrArg₂ Cursor.mk hmoved hrest
  rw [hplace] at hto'
  exact ⟨us, hto', areMoved_of_layout hto.rules hus⟩

end BeforeComments

/-- **Comments above a definition, or at the end, leave all definitions**, at places that are
moved. -/
theorem exists_definitions_comments (hline : EndsLine front) (hcomments : AreComments comments)
    (hindent : IsIndent indent)
    (h : Definitions (Cursor.skip ⟨0, front ++ (indent ++ rest)⟩ .spaced) ts)
    (hplace : rest = [] ∨ ∃ t ∈ ts, t.start = (front ++ indent).length)
    (hquotes : (∀ body ∈ comments, ¬ blockQuotes <:+: body) ∨ ∀ p ∈ stringsAll ts,
      p.1 < front.length → p.2 = "\"\"".toList →
        ((front ++ (indent ++ rest)).drop (p.1 + 2)).head? ≠ some '"') :
    ∃ us, Definitions
        (Cursor.skip ⟨0, front ++ (commentLines comments ++ (indent ++ rest))⟩ .spaced) us ∧
      List.Forall₂ (IsMoved (moved front.length (commentLines comments).length)) us ts := by
  rcases hline.cases with rfl | ⟨before, rfl⟩
  · -- all definitions stand behind the comments
    have hskip : Cursor.skip ⟨0, commentLines comments ++ (indent ++ rest)⟩ .spaced =
        (Cursor.skip ⟨0, indent ++ rest⟩ .spaced).shift (commentLines comments).length := by
      rw [← skip_shift]
      refine Reaches.eq_of_length (skip_reaches _ .spaced)
        ((@Reaches.of_append _ (commentLines comments) _ rfl).trans (skip_reaches _ .spaced)) ?_
      exact congrArg List.length (hcomments.behindIgnored_rest _ _ _)
    refine ⟨relocateAll (· + (commentLines comments).length) ts, ?_,
      isMoved_behind h (skip_skip _) (Nat.zero_le _) _⟩
    rw [List.nil_append, hskip]
    exact h.shift (skip_skip _) _
  · -- some of them stand before the comments, and the others behind
    have hsource : before ++ '\n' :: (indent ++ rest) = (before ++ '\n' :: indent) ++ rest := by
      simp
    simp only [List.append_assoc, List.singleton_append, List.length_append,
      List.length_singleton] at h hquotes hplace ⊢
    obtain ⟨m, us, vs, rfl, hto, hbehind, hm, hrest, hoffset⟩ :=
      h.exists_parts (skip_skip _) (isIn_start _) hsource (by simpa [Nat.add_assoc] using hplace)
    have hbegin := hbehind.begins hm
    have hsolid := skip_eq_self_iff.mp hm
    rw [hrest] at hbegin hsolid
    have hle : before.length + 1 ≤ m.offset := by
      simp only [hoffset, List.length_append, List.length_cons]
      omega
    obtain ⟨seam, hseam⟩ := exists_commentSeam hcomments hindent hsolid hbegin
    obtain ⟨ws, hws, hmoved⟩ := hseam.exists_before rfl hindent hbegin hto hrest hle
      (hquotes.imp_right fun hquotes p hp hlt =>
        hquotes p (by rw [stringsAll_append]; exact List.mem_append_left _ hp) (by omega))
    exact ⟨ws ++ relocateAll (· + (commentLines comments).length) vs,
      hws.append (hbehind.shift hm _), List.rel_append hmoved (isMoved_behind hbehind hm hle _)⟩

end Definitions

end Sdl
end EntitySdl
