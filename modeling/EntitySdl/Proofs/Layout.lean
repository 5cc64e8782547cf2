import EntitySdl.Proofs.Bytes
import EntitySdl.Proofs.Pieces

/-! # Splitting a document that is written in pieces

The definitions of a document in pieces are read one behind the other, each at its
place, and the text between two places is the piece with the line feeds behind it.
So splitting gives the pieces back.
-/
namespace EntitySdl
namespace Sdl

open Name Text Grammar Cursor

/-- Pieces one behind the other, each with the text behind it. -/
def layOut : List (Piece × List Char) → List Char
  | [] => []
  | (piece, gap) :: rest => piece.text ++ (gap ++ layOut rest)

/-- One line feed or more. -/
def IsFeeds (gap : List Char) : Prop := ∃ feeds, gap = '\n' :: feeds ∧ ∀ c ∈ feeds, c = '\n'

theorem IsFeeds.eq_feed {gap : List Char} (h : IsFeeds gap) : ∀ c ∈ gap, c = '\n' := by
  obtain ⟨feeds, rfl, hfeeds⟩ := h
  exact List.forall_mem_cons.mpr ⟨rfl, hfeeds⟩

theorem IsFeeds.isGap {gap : List Char} (h : IsFeeds gap) : IsGap gap := fun c hc => by
  rw [h.eq_feed c hc]
  decide

theorem IsFeeds.isBlankText {gap : List Char} (h : IsFeeds gap) : IsBlankText gap := fun c hc => by
  rw [h.eq_feed c hc]
  decide

theorem IsFeeds.returnsEndLines {gap : List Char} (h : IsFeeds gap) : ReturnsEndLines gap :=
  returnsEndLines_of_not_mem fun hmem => by
    have := h.eq_feed _ hmem
    cases this

/-- Pieces that stand by themselves, with line feeds behind each of them. -/
def AreLaid (ps : List (Piece × List Char)) : Prop := ∀ p ∈ ps, p.1.Stands ∧ IsFeeds p.2

/-- The definitions of pieces, each at its place. -/
inductive ArePlaced : Nat → List (Piece × List Char) → List PlacedDefinition → Prop where
  /-- No piece is left. -/
  | nil {offset} : ArePlaced offset [] []
  /-- A piece stands at the offset, and others behind it. -/
  | cons {offset piece gap ps d ds} (h : IsPlacement piece offset d)
      (hrest : ArePlaced (offset + piece.text.length + gap.length) ps ds) :
      ArePlaced offset ((piece, gap) :: ps) (d :: ds)

section Layouts

variable {ps : List (Piece × List Char)} {offset : Nat} {ds : List PlacedDefinition}

theorem isSolidStart_layOut (h : AreLaid ps) : isSolidStart (layOut ps) := by
  cases ps with
  | nil => rfl
  | cons p rest => exact ((h p List.mem_cons_self).1.isSolid.append _).start

theorem returnsEndLines_layOut (h : AreLaid ps) : ReturnsEndLines (layOut ps) := by
  induction ps with
  | nil => exact returnsEndLines_of_not_mem (by simp [layOut])
  | cons p rest ih =>
    obtain ⟨hp, hrest⟩ := List.forall_mem_cons.mp h
    exact hp.1.returnsEndLines.append (hp.2.returnsEndLines.append (ih hrest))

/-- A piece is read as a definition, and the pieces behind it are. -/
theorem definitions_layOut_cons {piece : Piece} {gap : List Char} {d : Cursor} {t : Tree Rule}
    {ts : List (Tree Rule)} (hgap : IsFeeds gap) (h : AreLaid ps)
    (hreads : Reads (.one (.rule .definition)) ⟨offset, piece.text ++ (gap ++ layOut ps)⟩ d [t])
    (hd : d.skip .spaced =
      Cursor.skip ⟨offset + piece.text.length, gap ++ layOut ps⟩ .spaced)
    (hts : Definitions ⟨offset + piece.text.length + gap.length, layOut ps⟩ ts) :
    Definitions ⟨offset, layOut ((piece, gap) :: ps)⟩ (t :: ts) := by
  rw [skip_gap hgap.isGap, skip_solid (isSolidStart_layOut h)] at hd
  refine .next hreads ?_
  rwa [hd]

/-- The pieces of a document are read one behind the other. -/
theorem definitions_layOut (h : AreLaid ps) (offset : Nat) :
    ∃ ts, Definitions ⟨offset, layOut ps⟩ ts ∧ ts.length = ps.length ∧
      (∀ t ∈ ts, checkDefinition t = .ok ()) ∧
      ∀ source before, source = before ++ layOut ps → before.length = offset →
        ReturnsEndLines source → ArePlaced offset ps (ts.map (place source)) := by
  induction ps generalizing offset with
  | nil => exact ⟨[], .done rfl, rfl, by simp, fun _ _ _ _ _ => .nil⟩
  | cons p rest ih =>
    obtain ⟨piece, gap⟩ := p
    obtain ⟨⟨hpiece, hgap⟩, hrest⟩ : (piece.Stands ∧ IsFeeds gap) ∧ AreLaid rest :=
      List.forall_mem_cons.mp h
    obtain ⟨feeds, hfeeds, -⟩ := id hgap
    have hbehind : gap ++ layOut rest = '\n' :: (feeds ++ layOut rest) := by rw [hfeeds]; rfl
    obtain ⟨d, t, hreads, hd, hcheck, hplace⟩ := hpiece.reads offset (feeds ++ layOut rest)
    rw [← hbehind] at hreads hd hplace
    obtain ⟨ts, hts, hlength, hchecks, hplaces⟩ :=
      ih hrest (offset + piece.text.length + gap.length)
    refine ⟨t :: ts, definitions_layOut_cons hgap hrest hreads hd hts, by simp [hlength],
      List.forall_mem_cons.mpr ⟨hcheck, hchecks⟩, ?_⟩
    intro source before hsource hoffset hreturns
    refine .cons (hplace source before hsource hoffset hreturns) ?_
    refine hplaces source (before ++ (piece.text ++ gap)) ?_ ?_ hreturns
    · rw [hsource, layOut]
      simp only [List.append_assoc]
    · rw [List.length_append, List.length_append, hoffset]
      omega

theorem ArePlaced.le_start (h : ArePlaced offset ps ds) : ∀ d ∈ ds, offset ≤ d.start := by
  induction h with
  | nil => simp
  | cons h _ ih =>
    refine List.forall_mem_cons.mpr ⟨Nat.le_of_eq h.start.symm, fun d hd => ?_⟩
    have := ih d hd
    omega

/-- Places go up. -/
theorem ArePlaced.sorted (h : ArePlaced offset ps ds) :
    ds.Pairwise fun a b => decide (a.start ≤ b.start) = true := by
  induction h with
  | nil => exact .nil
  | cons h hrest ih =>
    refine .cons (fun d hd => decide_eq_true ?_) ih
    have := hrest.le_start d hd
    rw [h.start]
    omega

/-- Behind a definition stands the next one, or the text ends. -/
theorem ofPlaced_cons {source : List Char} {d : PlacedDefinition} {finish : Nat}
    (hfinish : nextStart source ds = finish)
    (fragment : Fragment) : Fragment.ofPlaced source (d :: ds) fragment =
      Fragment.ofPlaced source ds (fragment.addDefinition source d
        (trimDefinition (slice source d.start finish))) := by
  subst hfinish
  rfl

theorem ArePlaced.next_start (h : ArePlaced offset ps ds) {source before : List Char}
    (hsource : source = before ++ layOut ps) (hoffset : before.length = offset) :
    nextStart source ds = offset := by
  cases h with
  | nil =>
    rw [hsource, layOut, List.append_nil]
    exact hoffset
  | cons h _ => exact h.start

theorem slice_eq {source before text behind : List Char}
    (hsource : source = before ++ (text ++ behind)) {start finish : Nat}
    (hstart : start = before.length) (hfinish : finish = before.length + text.length) :
    slice source start finish = text := by
  subst hsource hstart hfinish
  rw [slice, List.drop_left, Nat.add_sub_cancel_left, List.take_left]

/-- The lines of a root type come out of its text. -/
theorem bodyLines_write {kind : BlockKind} {name : List Char} {lines : List (List Char)}
    (hlines : ∀ line ∈ lines, IsBodyLine line) (hne : lines ≠ [])
    {source before behind : List Char} {d : PlacedDefinition}
    (hsource : source = before ++ (kind.write name (joinLines lines) ++ behind))
    (hstart : d.start = before.length)
    (hfirst : d.fieldStarts.min? = some (before.length + (kind.opening name).length)) :
    bodyLines source d (kind.write name (joinLines lines)) = lines.map String.ofList := by
  have hend : textEnd source d.start (kind.write name (joinLines lines)) =
      d.start + (kind.write name (joinLines lines)).length :=
    textEnd_of_begins ⟨behind, by rw [hsource, hstart, List.drop_left]⟩
  have hslice : slice source (before.length + (kind.opening name).length)
      (textEnd source d.start (kind.write name (joinLines lines))) =
        joinLines lines ++ "\n\x7d".toList := by
    rw [hend]
    refine @slice_eq _ (before ++ kind.opening name) _ behind ?_ _ _ ?_ ?_
    · rw [hsource, BlockKind.write]
      simp only [List.append_assoc]
    · rw [List.length_append]
    · simp only [hstart, BlockKind.write, List.length_append, Nat.add_assoc]
  have hbody : ((((joinLines lines ++ "\n\x7d".toList).reverse.dropWhile (· != '\x7d')).drop
      1).reverse) = joinLines lines ++ ['\n'] := by
    simp
  unfold bodyLines
  rw [hfirst]
  simp only [hslice]
  rw [if_pos (by simp), hbody, trimmed_lines_joinLines hlines hne]

/-- A placed piece adds to a fragment what it stands for. -/
theorem addDefinition_of_isPlacement {piece : Piece} {d : PlacedDefinition}
    {source before behind : List Char} (hstands : piece.Stands)
    (h : IsPlacement piece before.length d) (hsource : source = before ++ (piece.text ++ behind))
    (fragment : Fragment) :
    fragment.addDefinition source d piece.text = piece.addTo fragment := by
  unfold Fragment.addDefinition
  rw [h.root]
  cases piece with
  | kept text => rfl
  | root kind lines =>
    have hlines : bodyLines source d (Piece.root kind lines).text = lines.map String.ofList :=
      bodyLines_write (AreFields.line hstands) (AreFields.ne_nil hstands) hsource h.start
        (h.first kind lines rfl)
    cases kind with
    | query => simp only [Piece.root?, hlines, Piece.addTo]
    | mutation => simp only [Piece.root?, hlines, Piece.addTo]

/-- Placed pieces give a fragment what they stand for. -/
theorem ofPlaced_of_arePlaced (h : ArePlaced offset ps ds) (hps : AreLaid ps)
    {source before : List Char} (hsource : source = before ++ layOut ps)
    (hoffset : before.length = offset) (fragment : Fragment) :
    Fragment.ofPlaced source ds fragment =
      ps.foldl (fun fragment p => p.1.addTo fragment) fragment := by
  induction h generalizing before fragment with
  | nil => rfl
  | @cons offset piece gap ps d ds h hrest ih =>
    obtain ⟨⟨hpiece, hgap⟩, hps⟩ : (piece.Stands ∧ IsFeeds gap) ∧ AreLaid ps :=
      List.forall_mem_cons.mp hps
    have hsource' : source = before ++ (piece.text ++ (gap ++ layOut ps)) := hsource
    have hbefore : source = (before ++ (piece.text ++ gap)) ++ layOut ps := by
      rw [hsource']
      simp only [List.append_assoc]
    have hlength : (before ++ (piece.text ++ gap)).length =
        offset + piece.text.length + gap.length := by
      rw [List.length_append, List.length_append, hoffset, Nat.add_assoc]
    have hfinish := hrest.next_start hbefore hlength
    have hslice : slice source d.start (offset + piece.text.length + gap.length) =
        piece.text ++ gap := by
      refine @slice_eq _ before _ (layOut ps) ?_ _ _ (h.start.trans hoffset.symm) ?_
      · rw [hbefore, List.append_assoc]
      · rw [← hlength, List.length_append]
    rw [ofPlaced_cons hfinish, hslice, List.foldl_cons,
      trimDefinition_of_isKept hpiece.isKept hgap.isBlankText,
      addDefinition_of_isPlacement hpiece (hoffset ▸ h) hsource']
    exact ih hps hbefore hlength _

/-- Placed pieces begin with no blank. -/
theorem ArePlaced.begin (h : ArePlaced offset ps ds) (hps : AreLaid ps)
    {source before : List Char} (hsource : source = before ++ layOut ps)
    (hoffset : before.length = offset) :
    ∀ d ∈ ds, ∀ c, (source.drop d.start).head? = some c → isBlank c = false := by
  induction h generalizing before with
  | nil => simp
  | @cons offset piece gap ps d ds h hrest ih =>
    obtain ⟨⟨hpiece, hgap⟩, hps⟩ : (piece.Stands ∧ IsFeeds gap) ∧ AreLaid ps :=
      List.forall_mem_cons.mp hps
    refine List.forall_mem_cons.mpr ⟨fun c hc => ?_, ?_⟩
    · obtain ⟨x, more, htext, hblank⟩ := hpiece.isKept.first
      rw [hsource, h.start, ← hoffset, List.drop_left, layOut, htext] at hc
      cases hc
      exact hblank
    · have hbefore : source = (before ++ (piece.text ++ gap)) ++ layOut ps := by
        rw [hsource, layOut]
        simp only [List.append_assoc]
      exact ih hps hbefore (by rw [List.length_append, List.length_append, hoffset, Nat.add_assoc])

/-- The first line of a text begins as the text does. -/
theorem exists_first_line {c : Char} (hfeed : c ≠ '\n') (hreturn : c ≠ '\r') (cs : List Char) :
    ∃ more, c :: more ∈ Text.lines (c :: cs) := by
  have hdrop : ∀ piece, ∃ more, dropReturn (c :: piece) = c :: more := by
    intro piece
    unfold dropReturn
    split
    · rename_i rest hreverse
      have hsplit : c :: piece = rest.reverse ++ ['\r'] := by
        rw [← List.reverse_cons, ← hreverse, List.reverse_reverse]
      cases hrest : rest.reverse with
      | nil =>
        rw [hrest] at hsplit
        exact absurd (List.cons.inj hsplit).1 hreturn
      | cons x more =>
        rw [hrest] at hsplit
        exact ⟨more, by rw [(List.cons.inj hsplit).1]⟩
    · exact ⟨piece, rfl⟩
  obtain ⟨piece, pieces, hsplit⟩ :
      ∃ piece pieces, splitAt (· == '\n') (c :: cs) = (c :: piece) :: pieces := by
    rw [splitAt, if_neg (by simpa using hfeed)]
    cases hsplit : splitAt (· == '\n') cs with
    | nil => exact absurd hsplit (splitAt_ne_nil _ cs)
    | cons piece pieces => exact ⟨piece, pieces, rfl⟩
  unfold Text.lines
  rw [hsplit]
  cases pieces with
  | nil => exact ⟨piece, by simp⟩
  | cons next rest =>
    obtain ⟨more, hmore⟩ := hdrop piece
    refine ⟨more, ?_⟩
    simp only [List.dropLast_cons_cons, List.map_cons, hmore]
    split <;> simp

theorem isCommentOnly_eq_false {cs : List Char} (hsolid : IsSolid cs)
    (hblank : ∀ c, cs.head? = some c → isBlank c = false) : isCommentOnly cs = false := by
  obtain ⟨c, rest, rfl, hc⟩ := hsolid
  have hblank := hblank c rfl
  have hreturn : c ≠ '\r' := by
    rintro rfl
    cases hc
  obtain ⟨more, hmem⟩ := exists_first_line (ne_feed_of_isSolidStart hc) hreturn rest
  rw [isCommentOnly, List.all_eq_false]
  refine ⟨c :: more, hmem, ?_⟩
  have hcomment : isCommentLine (c :: more) = false := by
    rw [isCommentLine, trimStart_eq_self (by simpa using hblank)]
    have hne : c ≠ '#' := by
      rintro rfl
      cases hc
    simpa using hne
  rw [not_isBlankLine List.mem_cons_self hblank, hcomment]
  simp

/-- A piece is more than a comment. -/
theorem isCommentOnly_layOut {piece : Piece} {gap : List Char} (hsolid : IsSolid piece.text)
    (hkept : IsKept piece.text) : isCommentOnly (layOut ((piece, gap) :: ps)) = false := by
  refine isCommentOnly_eq_false (hsolid.append _) fun c hc => ?_
  obtain ⟨c', more, htext, hblank⟩ := hkept.first
  rw [layOut, htext] at hc
  cases hc
  exact hblank

/-- What is read in the pieces of a document is what is read in the document. -/
theorem parseDocument_layOut (h : AreLaid ps) (hne : ps ≠ []) {ts : List (Tree Rule)}
    (hts : Definitions ⟨0, layOut ps⟩ ts) (hlength : ts.length = ps.length)
    (hchecks : ∀ t ∈ ts, checkDefinition t = .ok ()) : parseDocument (layOut ps) = .ok ts := by
  refine parseDocument_eq_ok_iff.mpr ⟨?_, ?_, hchecks⟩
  · rintro rfl
    exact hne (List.length_eq_zero_iff.mp hlength.symm)
  · rwa [skip_solid (isSolidStart_layOut h)]

/-- **Documents in pieces.**  A document that is written in pieces is split into what
the pieces stand for. -/
theorem parse_layOut (h : AreLaid ps) (hne : ps ≠ []) {source : String}
    (hsource : source.toList = layOut ps) (name : String) :
    Fragment.parse name source =
      .ok (ps.foldl (fun fragment p => p.1.addTo fragment) { name := name }) := by
  obtain ⟨ts, hts, hlength, hchecks, hplaces⟩ := definitions_layOut h 0
  have hplaced := hplaces (layOut ps) [] rfl rfl (returnsEndLines_layOut h)
  -- the pieces are sorted by their places already
  have hsplit := @ofPlaced_of_arePlaced _ _ _ hplaced h (layOut ps) [] rfl rfl
    { name := name }
  have hparse := parseDocument_layOut h hne hts hlength hchecks
  have hcomment : isCommentOnly (layOut ps) = false := by
    cases ps with
    | nil => exact absurd rfl hne
    | cons p rest =>
      have hp := (h p List.mem_cons_self).1
      exact isCommentOnly_layOut hp.isSolid hp.isKept
  unfold Fragment.parse
  rw [hsource]
  rw [if_neg (by simp [hcomment])]
  have htorn := anyTorn_eq_false (@ArePlaced.begin _ _ _ hplaced h (layOut ps) [] rfl rfl)
  simp only [hparse, List.mergeSort_of_pairwise hplaced.sorted, hsplit, htorn]
  rfl

end Layouts

end Sdl
end EntitySdl
