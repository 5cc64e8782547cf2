import EntitySdl.Proofs.Relayout

/-! # Lines laid out anew

The lines of a root type are trimmed, and blank ones are left out.  Put together
again they are alike to the body that they were cut out of, up to the blanks behind
its last line.
-/
namespace EntitySdl
namespace Sdl

open Name Text Cursor

/-- Lines without the blanks around them; blank ones are left out. -/
def trimmedLines (pieces : List (List Char)) : List (List Char) :=
  (pieces.map trim).filter (!·.isEmpty)

section Trimmed

variable {piece : List Char} {pieces : List (List Char)}

theorem trimmedLines_cons_of_blank (h : trim piece = []) :
    trimmedLines (piece :: pieces) = trimmedLines pieces := by
  rw [trimmedLines, List.map_cons, List.filter_cons_of_neg (by simp [h])]
  rfl

theorem trimmedLines_cons (h : trim piece ≠ []) :
    trimmedLines (piece :: pieces) = trim piece :: trimmedLines pieces := by
  rw [trimmedLines, List.map_cons, List.filter_cons_of_pos (by simpa using h)]
  rfl

/-- A line that is not blank has blanks around a text that neither begins nor ends with
one. -/
theorem exists_trim (h : trim piece ≠ []) : ∃ front back, piece = front ++ (trim piece ++ back) ∧
    IsBlankText front ∧ IsBlankText back ∧
      (∃ c rest, trim piece = c :: rest ∧ isBlank c = false) ∧
      ∀ c, (trim piece).getLast? = some c → isBlank c = false := by
  obtain ⟨front, hfront, hblanks, hhead⟩ := exists_trimStart piece
  obtain ⟨back, hback, hblanks', hlast⟩ := exists_trimEnd (trimStart piece)
  refine ⟨front, back, ?_, hblanks, hblanks', ?_, hlast⟩
  · rw [trim, ← hback]
    exact hfront
  · rw [← trim] at hback
    obtain ⟨c, rest, hc⟩ := List.exists_cons_of_ne_nil h
    exact ⟨c, rest, hc, hhead c (by rw [hback, hc]; rfl)⟩

/-- Blank lines are put together to a blank text. -/
theorem isBlankText_intercalate (h : trimmedLines pieces = []) :
    IsBlankText (['\n'].intercalate pieces) := by
  induction pieces with
  | nil => simp [IsBlankText]
  | cons piece rest ih =>
    have hpiece : trim piece = [] := by
      by_contra hne
      rw [trimmedLines_cons hne] at h
      cases h
    rw [trimmedLines_cons_of_blank hpiece] at h
    have hblank := trim_eq_nil_iff.mp hpiece
    cases rest with
    | nil => rwa [List.intercalate_singleton]
    | cons next rest =>
      rw [List.intercalate_cons_cons]
      exact (hblank.append (by simp [IsBlankText]; decide)).append (ih h)

/-- Blanks behind a text are trimmed off. -/
theorem trim_append {cs blanks : List Char} (h : IsBlankText blanks) :
    trim (cs ++ blanks) = trim cs := by
  rw [trim, trim, trimStart, trimStart, List.dropWhile_append]
  split
  · rename_i hempty
    rw [List.isEmpty_iff] at hempty
    rw [hempty, List.dropWhile_eq_nil_iff.mpr fun c hc => h c hc]
  · exact trimEnd_append h

theorem exists_dropReturn (line : List Char) :
    ∃ blanks, line = dropReturn line ++ blanks ∧ IsBlankText blanks := by
  unfold dropReturn
  split
  · rename_i rest hreverse
    refine ⟨['\r'], ?_, by simp [IsBlankText]; decide⟩
    rw [← List.reverse_cons, ← hreverse, List.reverse_reverse]
  · exact ⟨[], by simp, by simp [IsBlankText]⟩

theorem trim_dropReturn (line : List Char) : trim (dropReturn line) = trim line := by
  obtain ⟨blanks, hline, hblanks⟩ := exists_dropReturn line
  conv_rhs => rw [hline, trim_append hblanks]

/-- The trimmed lines of a body are those between its line feeds. -/
theorem filter_lines_eq (cs : List Char) :
    ((lines cs).map trim).filter (!·.isEmpty) = trimmedLines (splitAt (· == '\n') cs) := by
  have hended : ∀ pieces : List (List Char),
      ((pieces.map dropReturn).map trim).filter (!·.isEmpty) = trimmedLines pieces := by
    intro pieces
    rw [List.map_map, trimmedLines]
    exact congrArg _ (List.map_congr_left fun piece _ => trim_dropReturn piece)
  have happend : ∀ front back, trimmedLines (front ++ back) =
      trimmedLines front ++ trimmedLines back := fun front back => by
    rw [trimmedLines, trimmedLines, trimmedLines, List.map_append, List.filter_append]
  obtain ⟨front, last, hsplit⟩ : ∃ front last, splitAt (· == '\n') cs = front ++ [last] :=
    ⟨_, _, (List.dropLast_append_getLast (splitAt_ne_nil _ cs)).symm⟩
  unfold lines
  simp only [hsplit, List.dropLast_concat, List.getLast?_concat]
  cases last with
  | nil =>
    have hnil : trimmedLines [] = [] := rfl
    rw [hended, happend, trimmedLines_cons_of_blank rfl, hnil, List.append_nil]
  | cons c last =>
    rw [List.map_append, List.filter_append, hended, happend]
    rfl

/-- What stands between line feeds is a line, but for a carriage return, or empty. -/
theorem mem_lines_of_mem_splitAt {cs piece : List Char} (h : piece ∈ splitAt (· == '\n') cs) :
    piece = [] ∨ piece ∈ lines cs ∨ dropReturn piece ∈ lines cs := by
  obtain ⟨front, last, hsplit⟩ : ∃ front last, splitAt (· == '\n') cs = front ++ [last] :=
    ⟨_, _, (List.dropLast_append_getLast (splitAt_ne_nil _ cs)).symm⟩
  rw [hsplit, List.mem_append, List.mem_singleton] at h
  unfold lines
  simp only [hsplit, List.dropLast_concat, List.getLast?_concat]
  rcases h with h | rfl
  · refine .inr (.inr ?_)
    cases last with
    | nil => exact List.mem_map_of_mem h
    | cons => exact List.mem_append_left _ (List.mem_map_of_mem h)
  · cases piece with
    | nil => exact .inl rfl
    | cons => exact .inr (.inl (List.mem_append_right _ List.mem_cons_self))

/-- Of a text of comments each line is a comment or blank. -/
theorem line_of_isCommentOnly {cs line : List Char} (h : isCommentOnly cs)
    (hline : line ∈ splitAt (· == '\n') cs) : isCommentLine line || isBlankLine line := by
  have hall := List.all_eq_true.mp h
  rcases mem_lines_of_mem_splitAt hline with rfl | hline | hline
  · rfl
  · rw [Bool.or_comm]
    exact hall line hline
  · have hdropped := hall _ hline
    rw [isBlankLine, trim_dropReturn, Bool.or_comm, Bool.or_eq_true] at hdropped
    rw [Bool.or_eq_true]
    refine hdropped.imp_left fun hcomment => ?_
    obtain ⟨blanks, hsplit, -⟩ := exists_dropReturn line
    rw [hsplit]
    exact isCommentLine_append hcomment blanks

end Trimmed

section Layouts

variable {seam : Seam}

theorem Seam.alike_append (text : List Char) {r r' : List Char} (h : seam.Alike r r') :
    seam.Alike (text ++ r) (text ++ r') := by
  induction text with
  | nil => exact h
  | cons c text ih => exact .char ih

/-- A body with blanks before its first line and behind its last one: between them it
is alike to its trimmed lines. -/
structure IsLayout (pieces : List (List Char)) (front inner back : List Char) : Prop where
  /-- The lines of the body. -/
  split : ['\n'].intercalate pieces = front ++ (inner ++ back)
  /-- Blanks come first. -/
  blankFront : IsBlankText front
  /-- Blanks come last. -/
  blankBack : IsBlankText back
  /-- The first line begins with no blank. -/
  first : ∃ c rest, inner = c :: rest ∧ isBlank c = false
  /-- Up to a seam at the blanks that come last, the lines are laid out anew. -/
  alike : ∀ seam : Seam, seam.shade = back → seam.gaps → seam.Alike (inner ++ seam.edge)
    (joinLines (trimmedLines pieces) ++ seam.tail)

section Lines

variable {piece front inner back : List Char} {rest : List (List Char)}

/-- A blank line may stand before the others. -/
theorem IsLayout.blank_line (h : IsLayout rest front inner back) (hpiece : trim piece = [])
    (hne : rest ≠ []) : IsLayout (piece :: rest) (piece ++ ['\n'] ++ front) inner back where
  split := by
    rw [List.intercalate_cons_of_ne_nil hne, h.split]
    simp only [List.append_assoc]
  blankFront :=
    ((trim_eq_nil_iff.mp hpiece).append (by simp [IsBlankText]; decide)).append h.blankFront
  blankBack := h.blankBack
  first := h.first
  alike := by
    rw [trimmedLines_cons_of_blank hpiece]
    exact h.alike

/-- Behind the last line that is not blank there are only blanks. -/
theorem exists_last_layout (hpiece : trim piece ≠ []) (hrest : trimmedLines rest = []) :
    ∃ front back, IsLayout (piece :: rest) front (trim piece) back := by
  obtain ⟨before, behind, hsplit, hbefore, hbehind, hfirst, -⟩ := exists_trim hpiece
  obtain ⟨back, hback, hblank⟩ : ∃ back, ['\n'].intercalate (piece :: rest) = piece ++ back ∧
      IsBlankText back := by
    cases rest with
    | nil => exact ⟨[], by simp, by simp [IsBlankText]⟩
    | cons next rest =>
      refine ⟨'\n' :: ['\n'].intercalate (next :: rest), ?_, ?_⟩
      · rw [List.intercalate_cons_cons, List.append_assoc]
        rfl
      · exact List.forall_mem_cons.mpr ⟨isBlank_of_lineFeed, isBlankText_intercalate hrest⟩
  refine ⟨before, behind ++ back, ?_, hbefore, hbehind.append hblank, hfirst, fun seam _ _ => ?_⟩
  · rw [hback]
    conv => lhs; rw [hsplit]
    simp only [List.append_assoc]
  · rw [trimmedLines_cons hpiece, hrest, joinLines, List.intercalate_singleton]
    exact Seam.alike_append _ .edge

/-- A line that is not blank stands before others, with a gap between them. -/
theorem IsLayout.exists_line (h : IsLayout rest front inner back) (hpiece : trim piece ≠ [])
    (hrest : trimmedLines rest ≠ []) :
    ∃ before inner', IsLayout (piece :: rest) before (trim piece ++ inner') back := by
  obtain ⟨before, behind, hsplit, hbefore, hbehind, ⟨c, more, hc, hblank⟩, -⟩ :=
    exists_trim hpiece
  have hne : rest ≠ [] := by
    rintro rfl
    exact hrest rfl
  refine ⟨before, (behind ++ '\n' :: front) ++ inner, ?_, hbefore, h.blankBack,
    ⟨c, _, by rw [hc, List.cons_append], hblank⟩, fun seam hseam hgaps => ?_⟩
  · rw [List.intercalate_cons_of_ne_nil hne, h.split]
    conv => lhs; rw [hsplit]
    simp only [List.append_assoc, List.cons_append, List.nil_append]
  · have hjoin : joinLines (trim piece :: trimmedLines rest) =
        trim piece ++ (lineGap ++ joinLines (trimmedLines rest)) := by
      rw [joinLines, List.intercalate_cons_of_ne_nil hrest, List.append_assoc]
      rfl
    rw [trimmedLines_cons hpiece, hjoin]
    simp only [List.append_assoc]
    refine Seam.alike_append _ ?_
    rw [← List.append_assoc]
    refine .gap hgaps ?_ (by simp) (h.alike seam hseam hgaps)
    exact hbehind.append (List.forall_mem_cons.mpr ⟨isBlank_of_lineFeed, h.blankFront⟩)

end Lines

/-- **Trimmed lines are alike to their body**, unless it is blank. -/
theorem exists_layout {pieces : List (List Char)} (h : trimmedLines pieces ≠ []) :
    ∃ front inner back, IsLayout pieces front inner back := by
  induction pieces with
  | nil => exact absurd rfl h
  | cons piece rest ih =>
    -- the first line is blank, or the last one that is not, or has others behind it
    by_cases hpiece : trim piece = []
    · rw [trimmedLines_cons_of_blank hpiece] at h
      obtain ⟨front, inner, back, hlayout⟩ := ih h
      have hne : rest ≠ [] := by
        rintro rfl
        exact h rfl
      exact ⟨_, _, _, hlayout.blank_line hpiece hne⟩
    · by_cases hrest : trimmedLines rest = []
      · obtain ⟨front, back, hlayout⟩ := exists_last_layout hpiece hrest
        exact ⟨front, _, back, hlayout⟩
      · obtain ⟨front, inner, back, hlayout⟩ := ih hrest
        obtain ⟨before, inner', hline⟩ := hlayout.exists_line hpiece hrest
        exact ⟨before, _, back, hline⟩

theorem exists_of_mem_splitAt {cs piece : List Char} (h : piece ∈ splitAt (· == '\n') cs) :
    ∃ before behind, cs = before ++ (piece ++ behind) := by
  obtain ⟨front, back, hsplit⟩ := List.append_of_mem h
  have hcs := intercalate_splitAt cs
  rw [hsplit] at hcs
  have hback : ∃ behind, ['\n'].intercalate (piece :: back) = piece ++ behind := by
    cases back with
    | nil => exact ⟨[], by simp⟩
    | cons next back => exact ⟨_, by rw [List.intercalate_cons_cons, List.append_assoc]⟩
  obtain ⟨behind, hbehind⟩ := hback
  by_cases hfront : front = []
  · rw [hfront, List.nil_append, hbehind] at hcs
    exact ⟨[], behind, hcs.symm⟩
  · rw [intercalate_append hfront (by simp), hbehind] at hcs
    exact ⟨_, behind, by rw [← hcs, List.append_assoc]⟩

/-- A trimmed line that is left is a line of a body. -/
theorem isBodyLine_of_mem {cs rest line : List Char} (hreturns : ReturnsEndLines (cs ++ rest))
    (hline : line ∈ trimmedLines (splitAt (· == '\n') cs)) : IsBodyLine line := by
  obtain ⟨hmem, hne⟩ := List.mem_filter.mp hline
  obtain ⟨piece, hpiece, rfl⟩ := List.mem_map.mp hmem
  obtain ⟨front, back, hsplit, -, -, hfirst, hlast⟩ := exists_trim (by simpa using hne)
  have hfeed : '\n' ∉ trim piece := fun hmem => by
    have hmem' : '\n' ∈ piece := by
      rw [hsplit]
      exact List.mem_append_right _ (List.mem_append_left _ hmem)
    cases splitAt_separates hpiece _ hmem'
  refine ⟨hfirst, hlast, hfeed, fun hmem => ?_⟩
  -- behind a carriage return inside the line there would be a line feed
  obtain ⟨left, right, htrim⟩ := List.append_of_mem hmem
  obtain ⟨before, behind, hcs⟩ := exists_of_mem_splitAt hpiece
  have hhead := hreturns (before ++ (front ++ left)) (right ++ (back ++ (behind ++ rest))) (by
    rw [hcs, hsplit, htrim]
    simp only [List.append_assoc, List.cons_append])
  cases right with
  | nil =>
    have := hlast '\r' (by rw [htrim, List.getLast?_concat])
    cases this
  | cons x right =>
    cases hhead
    exact hfeed (by rw [htrim]; simp)

end Layouts

end Sdl
end EntitySdl
