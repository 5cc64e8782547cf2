import EntitySdl.Proofs.Documents
import EntitySdl.Proofs.Nodes
import EntitySdl.Proofs.RelaidLines
import EntitySdl.Proofs.RelaidReading

/-! # Definitions cut out of a source

A definition is cut out of its source by its place and that of the next one, and a
root type once more at its last closing brace.  It is cut out whole if each of its
strings ends in what is kept, and if the brace is that of its body.  Then it is read
again, wherever it is put.
-/
namespace EntitySdl
namespace Sdl

open Name Text Grammar Cursor Sdl.Tree

/-- The place behind the kept text of a definition between two places. -/
def keptEnd (source : List Char) (start finish : Nat) : Nat :=
  start + (trimDefinition (slice source start finish)).length

/-- Definitions, each with the place where the next one starts. -/
def withFinish (source : List Char) : List (Tree Rule) → List (Tree Rule × Nat)
  | [] => []
  | t :: ts => (t, (ts.head?.map Tree.start).getD source.length) :: withFinish source ts

/-- The body of an object type that a definition defines or extends. -/
def bodyOf? (t : Tree Rule) : Option (Tree Rule) :=
  (objectType? t).bind (·.child? .fieldsDefinition)

/-- A definition that the next one follows at a place is cut out whole. -/
def IsCutWhole (source : List Char) (t : Tree Rule) (finish : Nat) : Prop :=
  match rootKind? t with
  | none => ∀ p ∈ t.strings, p.1 + p.2.length ≤ keptEnd source t.start finish
  | some _ => ∀ fields, bodyOf? t = some fields →
      fields.start + fields.text.length ≤ keptEnd source t.start finish ∧
        '\x7d' ∉ slice source (fields.start + fields.text.length) (keptEnd source t.start finish)

/-- A definition that the next one follows at a place is cut out up to the end of each of its
strings, or of its body. -/
def IsUncut (source : List Char) (t : Tree Rule) (finish : Nat) : Prop :=
  match rootKind? t with
  | none => ∀ p ∈ t.strings, p.1 + p.2.length ≤ keptEnd source t.start finish
  | some _ => ∀ fields, bodyOf? t = some fields →
      fields.start + fields.text.length ≤ keptEnd source t.start finish

/-- What is cut out whole is cut out so far. -/
theorem IsCutWhole.uncut {source : List Char} {t : Tree Rule} {finish : Nat}
    (h : IsCutWhole source t finish) : IsUncut source t finish := by
  unfold IsCutWhole at h
  unfold IsUncut
  cases hroot : rootKind? t with
  | none =>
    rw [hroot] at h
    exact h
  | some kind =>
    rw [hroot] at h
    exact fun fields hfields => (h fields hfields).1

/-- Whether anything is cut is decided by the strings or by the lines of the fields, as the
definition may be one of a root type. -/
instance (source : List Char) (t : Tree Rule) (finish : Nat) :
    Decidable (IsUncut source t finish) :=
  match hroot : rootKind? t with
  | none => decidable_of_iff (∀ p ∈ t.strings, p.1 + p.2.length ≤ keptEnd source t.start finish)
      (by rw [IsUncut, hroot])
  | some _ => decidable_of_iff (∀ fields ∈ bodyOf? t,
      fields.start + fields.text.length ≤ keptEnd source t.start finish)
      (by rw [IsUncut, hroot]; rfl)

/-- The same is looked at to decide whether a definition is cut out whole. -/
instance (source : List Char) (t : Tree Rule) (finish : Nat) :
    Decidable (IsCutWhole source t finish) :=
  match hroot : rootKind? t with
  | none => decidable_of_iff (∀ p ∈ t.strings, p.1 + p.2.length ≤ keptEnd source t.start finish)
      (by rw [IsCutWhole, hroot])
  | some _ => decidable_of_iff (∀ fields ∈ bodyOf? t,
      fields.start + fields.text.length ≤ keptEnd source t.start finish ∧
        '\x7d' ∉ slice source (fields.start + fields.text.length) (keptEnd source t.start finish))
      (by rw [IsCutWhole, hroot]; rfl)

/-- All definitions of a source are cut out whole. -/
structure AreCutWhole (source : List Char) (definitions : List (Tree Rule)) : Prop where
  /-- Carriage returns belong to line ends. -/
  returns : ReturnsEndLines source
  /-- No quote stands behind an empty string. -/
  quotes : ∀ p ∈ stringsAll definitions, p.2 = "\"\"".toList →
    (source.drop (p.1 + 2)).head? ≠ some '"'
  /-- Each definition is cut out whole. -/
  whole : ∀ p ∈ withFinish source definitions, IsCutWhole source p.1 p.2

section Seams

variable {shade resume : List Char}

/-- What a number would go on with does not begin a definition. -/
theorem number_of_begin (h : definitionHeads.Begin resume) :
    (∀ c, resume.head? = some c → goesOnNumber c = false) ∧
      ∀ c d rest, resume = c :: d :: rest → (c == 'E' || c == 'e') → goesOnNumber d = false := by
  have hheads : ∀ word ∈ definitionHeads.words, word = ['"'] ∨
      (1 < word.length ∧ ∀ c ∈ word.take 2, goesOnNumber c = false) := by decide +kernel
  rcases h with ⟨word, hword, -, rest, rfl⟩ | ⟨hnames, -⟩ | ⟨hall, -⟩
  · rcases hheads word hword with rfl | ⟨hlength, hall⟩
    · refine ⟨by rintro _ ⟨⟩; decide, ?_⟩
      rintro _ _ _ ⟨⟩ hmark
      cases hmark
    · match word, hlength with
      | x :: y :: word, _ =>
        simp only [List.take_succ_cons, List.take_zero, List.mem_cons, List.not_mem_nil, or_false,
          forall_eq_or_imp, forall_eq] at hall
        refine ⟨by rintro _ ⟨⟩; exact hall.1, ?_⟩
        rintro _ _ _ ⟨⟩ -
        exact hall.2
  · cases hnames
  · cases hall

theorem not_isBlank_of_definition (h : definitionHeads.Begin resume) :
    ∀ c, resume.head? = some c → isBlank c = false :=
  Heads.not_isBlank_of_begin (by decide +kernel) h

/-- Behind a definition the text ends, or goes on with no blank. -/
theorem not_isBlank_of_follows {d : Cursor} (h : Follows definitionHeads d) :
    ∀ c, (d.skip .spaced).rest.head? = some c → isBlank c = false := by
  intro c hc
  rcases h with hend | hbegin
  · rw [hend] at hc
    cases hc
  · exact not_isBlank_of_definition hbegin c hc

/-- A definition may be cut off before the next one. -/
theorem exists_seam (hshade : IsShade shade) (hblank : ∀ c, shade.head? = some c → isBlank c)
    (hreturns : ReturnsEndComments shade) (hsolid : isSolidStart resume)
    (hresume : resume = [] ∨ definitionHeads.Begin resume) {tail : List Char}
    (hfeeds : ∀ c, tail.head? = some c → c = '\n') :
    ∃ seam : Seam, seam.shade = shade ∧ seam.resume = resume ∧ seam.tail = tail ∧
      seam.gaps = false := by
  have hnumber : (∀ c, resume.head? = some c → goesOnNumber c = false) ∧
      ∀ c d rest, resume = c :: d :: rest → (c == 'E' || c == 'e') → goesOnNumber d = false := by
    rcases hresume with rfl | hbegin
    · simp
    · exact number_of_begin hbegin
  exact ⟨⟨shade, resume, tail, hfeeds, false, nofun, hshade, hblank, hreturns, hsolid, hnumber.1,
    hnumber.2⟩, rfl, rfl, rfl, rfl⟩

end Seams

section Relaid

variable {source new : List Char} {c d : Cursor} {ts : List (Tree Rule)} {e : Peg Rule}
  {seam : Seam}

/-- Behind what is read anew stands the new text from the cut on. -/
theorem skip_eq_of_next {seam : Seam} {offset : Nat} {new : List Char} {d : Cursor}
    (hreaches : Cursor.Reaches ⟨offset, new ++ seam.tail⟩ d)
    (hd : (d.skip .spaced).rest = seam.next) :
    d.skip .spaced = Cursor.skip ⟨offset + new.length, seam.tail⟩ .spaced := by
  refine Reaches.eq_of_length (hreaches.trans (skip_reaches d .spaced))
    ((@Reaches.of_append _ new _ rfl).trans (skip_reaches _ .spaced)) ?_
  rw [hd, Seam.next]
  exact congrArg List.length (behindIgnored_rest false 0 _ seam.tail)

/-- What is read up to a seam is read again in a text that is alike up to there, and
goes on as the new text does. -/
theorem Reads.relaid_to_seam (h : Reads (.one e) c d ts) (hplain : isPlain e)
    (hc : c.skip .spaced = c) (hin : c.IsIn source) (hstrings : seam.KeepsStrings source ts)
    (hd : (d.skip .spaced).rest = seam.resume)
    (hink : ∀ x, seam.resume.head? = some x → isBlank x = false) (hsolid : IsSolid new)
    (halike : seam.Alike c.rest (new ++ seam.tail)) (offset : Nat) :
    ∃ d' us, Reads (.one e) ⟨offset, new ++ seam.tail⟩ d' us ∧
      d'.skip .spaced = Cursor.skip ⟨offset + new.length, seam.tail⟩ .spaced ∧
        seam.SameTrees us ts := by
  have hc' : Cursor.skip ⟨offset, new ++ seam.tail⟩ .spaced = ⟨offset, new ++ seam.tail⟩ :=
    skip_solid (hsolid.append _).start _
  have hoff : ¬ seam.Off (d.skip .spaced).rest := by
    rw [hd]
    rintro (hlt | ⟨x, hx, hblank⟩)
    · exact Nat.lt_irrefl _ hlt
    · rw [hink x hx] at hblank
      cases hblank
  have hnear : seam.Near (c.skip .spaced).rest
      (Cursor.skip ⟨offset, new ++ seam.tail⟩ .spaced).rest := by
    rw [hc, hc']
    exact .inl halike
  obtain ⟨d', us, h', hnear, hus⟩ :=
    Reads.relaid h hplain hin hstrings hoff hc hc' hnear rfl (Seam.relates_sameTrees _ _)
  rw [hd] at hnear
  have hnext := hnear.eq_next (skip_eq_self_iff.mp (skip_skip d'))
  exact ⟨d', us, h', skip_eq_of_next h'.reaches hnext, hus⟩

end Relaid

/-- The text of a definition that is read from one place to another, and what is cut off
behind it. -/
structure IsCut (source : List Char) (c d : Cursor) (text cut : List Char) : Prop where
  /-- They stand before the next definition. -/
  rest : c.rest = text ++ (cut ++ (d.skip .spaced).rest)
  /-- The text is what is kept. -/
  trimmed : trimDefinition (slice source c.offset (d.skip .spaced).offset) = text
  /-- Blanks and comments are cut off. -/
  shade : IsShade cut
  /-- A blank comes first. -/
  blank : ∀ x, cut.head? = some x → isBlank x
  /-- The text is trimmed. -/
  kept : IsKept text

section Definitions

variable {source text cut : List Char} {c d : Cursor} {t : Tree Rule}

/-- What is kept of a definition ends where the cut begins. -/
theorem keptEnd_of_isCut (hc : c.skip .spaced = c) (h : Reads (.one (.rule .definition)) c d [t])
    (hcut : IsCut source c d text cut) :
    keptEnd source t.start (d.skip .spaced).offset = c.offset + text.length := by
  obtain ⟨u, hu, -, hstart, -⟩ := standsBehind_of_reads rfl rfl hc h
  cases hu
  rw [keptEnd, hstart, hcut.trimmed]

theorem slice_of_reaches (hin : c.IsIn source) {text rest : List Char}
    (hrest : c.rest = text ++ rest) {finish : Nat} (hfinish : finish = c.offset + text.length) :
    slice source c.offset finish = text := by
  obtain ⟨before, hsource, hlength⟩ := hin
  exact slice_eq (hsource.trans (by rw [hrest])) hlength.symm (by rw [hfinish, hlength])

/-- A definition is cut off. -/
theorem exists_isCut (hin : c.IsIn source) (hc : c.skip .spaced = c)
    (h : Reads (.one (.rule .definition)) c d [t]) (hd : Follows definitionHeads d) :
    ∃ text cut, IsCut source c d text cut := by
  obtain ⟨whole, hrest, hoffset⟩ := h.reaches.trans (skip_reaches d .spaced)
  have hlt : (d.skip .spaced).rest.length < c.rest.length :=
    Nat.lt_of_le_of_lt (skip_reaches d .spaced).length_le
      ((definition_found hc h hd).length_lt sdl_bounded.empties rfl)
  have hslice := slice_of_reaches hin hrest hoffset
  cases whole with
  | nil =>
    -- a definition takes a character
    rw [hrest] at hlt
    exact absurd hlt (Nat.lt_irrefl _)
  | cons x more =>
    have hx := not_isBlank_of_definition (definition_begins hc h) x (by rw [hrest]; rfl)
    obtain ⟨cut, hsplit, hshade, hblank, hkept⟩ := @exists_cut _ more hx
    refine ⟨_, cut, ?_, by rw [hslice], hshade, hblank, hkept⟩
    rw [hrest, ← List.append_assoc, ← hsplit]

/-- What is cut off stands before the next definition. -/
theorem slice_of_isCut (hin : c.IsIn source) (h : Reads (.one (.rule .definition)) c d [t])
    (hcut : IsCut source c d text cut) :
    slice source (c.offset + text.length) (d.skip .spaced).offset = cut := by
  have hreaches := (h.reaches.trans (skip_reaches d .spaced)).offset_add
  rw [hcut.rest, List.length_append, List.length_append] at hreaches
  have hbehind := hin.of_reaches (d := ⟨c.offset + text.length, _⟩) ⟨text, hcut.rest, rfl⟩
  exact slice_of_reaches hbehind rfl (by simp only; omega)

theorem returnsEndLines_of_isIn (hin : c.IsIn source) (hreturns : ReturnsEndLines source) :
    ReturnsEndLines c.rest := by
  obtain ⟨before, rfl, -⟩ := hin
  exact hreturns.of_append

/-- What ends with no blank does not end with a carriage return. -/
theorem ReturnsEndLines.front {cs : List Char} (h : ReturnsEndLines (text ++ cs))
    (hlast : ∀ c, text.getLast? = some c → isBlank c = false) : ReturnsEndLines text := by
  intro before behind hsplit
  have hhead := h before (behind ++ cs) (by rw [hsplit, List.append_assoc]; rfl)
  cases behind with
  | nil =>
    have := hlast '\r' (by rw [hsplit, List.getLast?_concat])
    cases this
  | cons x behind => exact hhead

theorem isSolid_of_isCut (hcut : IsCut source c d text cut) (hc : c.skip .spaced = c) :
    IsSolid text := by
  obtain ⟨x, rest, htext, -⟩ := hcut.kept.first
  refine ⟨x, rest, htext, ?_⟩
  have hsolid := skip_eq_self_iff.mp hc
  rw [hcut.rest, htext] at hsolid
  rw [htext]
  exact hsolid

/-- The strings of a definition that is cut out whole are kept. -/
theorem keepsStrings_of_isCut {seam : Seam} (hin : c.IsIn source) (hcut : IsCut source c d text cut)
    (hshade : seam.shade = cut) (hresume : seam.resume = (d.skip .spaced).rest)
    {ts : List (Tree Rule)} (hends : ∀ p ∈ stringsAll ts, p.1 + p.2.length ≤ c.offset + text.length)
    (hquotes : seam.tail ≠ [] → ∀ p ∈ stringsAll ts, p.2 = "\"\"".toList →
      (source.drop (p.1 + 2)).head? ≠ some '"') : seam.KeepsStrings source ts := by
  intro p hp
  refine ⟨?_, fun hkeeps => hquotes (mt Seam.keepsBlocks_of_tail_nil hkeeps) p hp⟩
  obtain ⟨before, hsource, hlength⟩ := hin
  have := hends p hp
  rw [hsource, hcut.rest, Seam.edge, hshade, hresume]
  simp only [List.length_append] at this ⊢
  omega

/-- A definition that is cut out whole is read again, whatever stands behind it in its new
place.  If nothing stands there, it says the same. -/
theorem exists_relaid_of_isCut (hin : c.IsIn source) (hreturns : ReturnsEndComments cut)
    (hc : c.skip .spaced = c) (h : Reads (.one (.rule .definition)) c d [t])
    (hd : Follows definitionHeads d) (hcut : IsCut source c d text cut)
    (hends : ∀ p ∈ t.strings, p.1 + p.2.length ≤ c.offset + text.length) {tail : List Char}
    (hfeeds : ∀ c, tail.head? = some c → c = '\n')
    (hquotes : tail ≠ [] → ∀ p ∈ t.strings, p.2 = "\"\"".toList →
      (source.drop (p.1 + 2)).head? ≠ some '"') (offset : Nat) :
    ∃ d' u, Reads (.one (.rule .definition)) ⟨offset, text ++ tail⟩ d' [u] ∧
      d'.skip .spaced = Cursor.skip ⟨offset + text.length, tail⟩ .spaced ∧
        u.outline = t.outline ∧ (tail = [] → u.unplaced = t.unplaced) := by
  -- what was cut off is a seam before what stands behind the text in its new place
  obtain ⟨seam, hshade, hresume, rfl, -⟩ := exists_seam hcut.shade hcut.blank hreturns
    (skip_eq_self_iff.mp (skip_skip d)) hd hfeeds
  have halike : seam.Alike c.rest (text ++ seam.tail) := by
    rw [hcut.rest, ← hshade, ← hresume]
    exact Seam.alike_append text .edge
  have hink : ∀ x, seam.resume.head? = some x → isBlank x = false := by
    rw [hresume]
    exact not_isBlank_of_follows hd
  have hstrings : stringsAll [t] = t.strings := by rw [stringsAll, stringsAll, List.append_nil]
  obtain ⟨d', us, h', hd', hus⟩ := Reads.relaid_to_seam h rfl hc hin
    (keepsStrings_of_isCut hin hcut hshade hresume (by rwa [hstrings]) (by rwa [hstrings]))
    hresume.symm hink (isSolid_of_isCut hcut hc) halike offset
  obtain ⟨xs, -, rfl⟩ := (reads_rule_iff rfl).mp h'
  refine ⟨d', _, h', hd', ?_, fun htail => ?_⟩
  · simpa only [outlineAll, List.cons.injEq, and_true] using hus.outline
  · simpa only [unplacedAll, List.cons.injEq, and_true] using hus.unplaced htail

/-- **A definition that is cut out whole is a definition by itself.** -/
theorem isDefinition_of_isCut (hin : c.IsIn source) (hreturns : ReturnsEndLines source)
    (hc : c.skip .spaced = c) (h : Reads (.one (.rule .definition)) c d [t])
    (hd : Follows definitionHeads d) (hcheck : checkDefinition t = .ok ())
    (hroot : rootKind? t = none) (hcut : IsCut source c d text cut)
    (hends : ∀ p ∈ t.strings, p.1 + p.2.length ≤ c.offset + text.length)
    (hquotes : ∀ p ∈ t.strings, p.2 = "\"\"".toList →
      (source.drop (p.1 + 2)).head? ≠ some '"') : IsDefinition text := by
  have hrest := returnsEndLines_of_isIn hin hreturns
  rw [hcut.rest] at hrest
  refine ⟨hcut.kept, isSolid_of_isCut hcut hc, hrest.front hcut.kept.last,
    fun offset behind => ?_⟩
  have hfeeds : ∀ x, ('\n' :: behind).head? = some x → x = '\n' := by
    rintro _ ⟨⟩
    rfl
  obtain ⟨d', u, h', hd', houtline, -⟩ :=
    exists_relaid_of_isCut hin hrest.of_append.comments hc h hd hcut hends hfeeds
      (fun _ => hquotes) offset
  exact ⟨d', u, h', hd', by rw [rootKind?_congr houtline, hroot],
    by rw [checkDefinition_congr houtline, hcheck]⟩

end Definitions

end Sdl
end EntitySdl
