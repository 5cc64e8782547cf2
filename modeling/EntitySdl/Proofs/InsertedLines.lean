import EntitySdl.Proofs.RelaidLines

/-! # Lines put into a text

If whole lines are put into a text at the start of a line, the places before them stay,
and those behind them are moved by the number of characters.  So it is with the places
that come out by line and column.  If the lines are comments, the text of a definition
before them is trimmed as it was.
-/
namespace EntitySdl
namespace Sdl

open Name Text

/-- A text ends with a line, or is empty. -/
def EndsLine (cs : List Char) : Prop := ∀ c, cs.getLast? = some c → c = '\n'

theorem EndsLine.append {cs ds : List Char} (h : EndsLine cs) (h' : EndsLine ds) :
    EndsLine (cs ++ ds) := by
  intro c hc
  rw [List.getLast?_append] at hc
  cases hds : ds.getLast? with
  | none =>
    rw [hds] at hc
    exact h c hc
  | some d =>
    rw [hds] at hc
    cases hc
    exact h' c hds

/-- A text that ends with a line has a line feed at its end, unless it is empty. -/
theorem EndsLine.cases {cs : List Char} (h : EndsLine cs) :
    cs = [] ∨ ∃ before, cs = before ++ ['\n'] := by
  rcases List.eq_nil_or_concat cs with rfl | ⟨before, c, rfl⟩
  · exact .inl rfl
  · rw [List.concat_eq_append] at h ⊢
    obtain rfl := h c List.getLast?_concat
    exact .inr ⟨before, rfl⟩

/-- What becomes of a place in a text when more characters are put in at another one. -/
def moved (start more : Nat) (p : Nat) : Nat := if p < start then p else p + more

section Moved

variable {start more p q : Nat}

theorem moved_of_lt (h : p < start) : moved start more p = p := if_pos h

theorem moved_of_le (h : start ≤ p) : moved start more p = p + more :=
  if_neg (Nat.not_lt_of_le h)

/-- The order of places stays. -/
theorem moved_le_moved_iff : moved start more p ≤ moved start more q ↔ p ≤ q := by
  unfold moved
  split <;> split <;> omega

end Moved

namespace Position

theorem column_foldl_step (cs : List Char) (line line' column : Nat) :
    (cs.foldl step ⟨line, column⟩).column = (cs.foldl step ⟨line', column⟩).column := by
  induction cs generalizing line line' column with
  | nil => rfl
  | cons c cs ih =>
    rw [List.foldl_cons, List.foldl_cons, step, step]
    by_cases hc : c = '\n'
    · rw [if_pos hc, if_pos hc]
      exact ih _ _ _
    · by_cases hr : c = '\r'
      · rw [if_neg hc, if_neg hc, if_pos hr, if_pos hr]
        exact ih _ _ _
      · rw [if_neg hc, if_neg hc, if_neg hr, if_neg hr]
        exact ih _ _ _

theorem column_foldl_step_le (cs : List Char) {position : Position} (h : 1 ≤ position.column) :
    (cs.foldl step position).column ≤ position.column + cs.length := by
  induction cs generalizing position with
  | nil => exact le_rfl
  | cons c cs ih =>
    have hstep : 1 ≤ (step position c).column ∧ (step position c).column ≤ position.column + 1 := by
      rw [step]
      split
      · exact ⟨le_rfl, by simp⟩
      · split
        · exact ⟨le_rfl, by simp⟩
        · exact ⟨by simp, le_rfl⟩
    have := ih hstep.1
    rw [List.foldl_cons, List.length_cons]
    omega

/-- Behind a line the column is the first one. -/
theorem foldl_step_of_endsLine {cs : List Char} (h : EndsLine cs) (line : Nat) :
    cs.foldl step ⟨line, 1⟩ = ⟨line + cs.count '\n', 1⟩ := by
  rcases h.cases with rfl | ⟨before, rfl⟩
  · rfl
  · rw [List.foldl_append, List.foldl_cons, List.foldl_nil, step, if_pos rfl, line_foldl_step,
      List.count_append, List.count_singleton_self, Nat.add_assoc]

/-- The line of a place starts before it, as the column says, whatever stands behind. -/
theorem exists_lineStart (cs : List Char) : ∃ start,
    (∀ behind, lineStart? (cs.count '\n') (cs ++ behind) = some start) ∧
      start + ((cs.foldl step {}).column - 1) ≤ cs.length := by
  rcases exists_last_line cs with ⟨before, line, rfl, hline⟩ | hline
  · refine ⟨before.length + 1, fun behind => ?_, ?_⟩
    · rw [List.count_append, List.count_cons_self, List.count_eq_zero.mpr hline,
        List.append_assoc]
      exact lineStart?_of_feed before (line ++ behind)
    · have hcolumn := @column_foldl_step_le line ⟨(before.foldl step {}).line + 1, 1⟩ le_rfl
      rw [List.foldl_append, List.foldl_cons, step, if_pos rfl, List.length_append,
        List.length_cons]
      simp only at hcolumn
      omega
  · refine ⟨0, fun behind => by rw [List.count_eq_zero.mpr hline, lineStart?], ?_⟩
    have hcolumn := @column_foldl_step_le cs {} le_rfl
    simp only at hcolumn
    omega

/-- Behind a text that ends with a line, lines start behind it. -/
theorem lineStart?_append {front : List Char} (h : EndsLine front) (lines : Nat)
    (back : List Char) : lineStart? (front.count '\n' + lines) (front ++ back) =
      (lineStart? lines back).map (· + front.length) := by
  have hfeed : ∀ before : List Char,
      lineStart? (before.count '\n' + 1 + lines) (before ++ '\n' :: back) =
        (lineStart? lines back).map (· + (before.length + 1)) := by
    intro before
    induction before with
    | nil =>
      rw [List.count_nil, List.nil_append, Nat.zero_add, Nat.add_comm, lineStart?, if_pos rfl]
      rfl
    | cons c before ih =>
      rw [List.cons_append, List.count_cons]
      by_cases hc : c = '\n'
      · have hlines : before.count '\n' + 1 + 1 + lines = before.count '\n' + 1 + lines + 1 := by
          omega
        rw [hc, if_pos (by simp), hlines, lineStart?, if_pos rfl, ih, Option.map_map]
        rfl
      · have hlines : before.count '\n' + 0 + 1 + lines = before.count '\n' + lines + 1 := by
          omega
        have hlines' : before.count '\n' + lines + 1 = before.count '\n' + 1 + lines := by
          omega
        rw [if_neg (by simpa using hc), hlines, lineStart?, if_neg hc, hlines', ih,
          Option.map_map]
        rfl
  rcases h.cases with rfl | ⟨before, rfl⟩
  · simp
  · rw [List.count_append, List.count_singleton_self, List.append_assoc, List.length_append]
    exact hfeed before

end Position

section Places

variable {front inserted back : List Char} {p : Nat}

open Position

/-- A place comes out before where it is. -/
theorem placeOf_le (source : List Char) (p : Nat) (h : p ≤ source.length) :
    placeOf source p ≤ p := by
  obtain ⟨start, hstart, hle⟩ := exists_lineStart (source.take p)
  have hline := hstart (source.drop p)
  rw [List.take_append_drop] at hline
  rw [List.length_take] at hle
  have hcount : (after source p).line - 1 = (source.take p).count '\n' := by
    rw [after, line_foldl_step]
    simp
  rw [placeOf, Position.offset, hcount, hline, after]
  simp only
  split <;> omega

/-- Behind a text that ends with a line, places come out as in what stands behind it. -/
theorem placeOf_append (h : EndsLine front) (p : Nat) :
    placeOf (front ++ back) (front.length + p) = front.length + placeOf back p := by
  obtain ⟨start, hstart, -⟩ := exists_lineStart (back.take p)
  have hline := hstart (back.drop p)
  rw [List.take_append_drop] at hline
  have htake : (front ++ back).take (front.length + p) = front ++ back.take p :=
    List.take_length_add_append p
  have hafter : after (front ++ back) (front.length + p) =
      ⟨1 + front.count '\n' + (back.take p).count '\n', (after back p).column⟩ := by
    rw [after, htake, List.foldl_append]
    have hfront := foldl_step_of_endsLine h 1
    have hline' := line_foldl_step (back.take p) ⟨1 + front.count '\n', 1⟩
    have hcolumn := column_foldl_step (back.take p) (1 + front.count '\n') 1 1
    change List.foldl step (List.foldl step ⟨1, 1⟩ front) (back.take p) = _
    rw [hfront]
    exact congrArg₂ Position.mk hline' hcolumn
  have hback : (after back p).line - 1 = (back.take p).count '\n' := by
    rw [after, line_foldl_step]
    simp
  have hlines : 1 + front.count '\n' + (back.take p).count '\n' - 1 =
      front.count '\n' + (back.take p).count '\n' := by omega
  rw [placeOf, placeOf, Position.offset, Position.offset, hafter, hback]
  simp only [hlines]
  rw [lineStart?_append h, hline, List.length_append]
  simp only [Option.map_some]
  split <;> split <;> omega

/-- Before the end of a text, places come out whatever stands behind it. -/
theorem placeOf_front (h : p < front.length) : placeOf (front ++ back) p = placeOf front p := by
  obtain ⟨start, hstart, hle⟩ := exists_lineStart (front.take p)
  have hfront := hstart (front.drop p)
  have hboth := hstart (front.drop p ++ back)
  rw [← List.append_assoc] at hboth
  rw [List.take_append_drop] at hfront hboth
  have hafter : after (front ++ back) p = after front p := by
    rw [after, after, List.take_append_of_le_length (Nat.le_of_lt h)]
  have hcount : (after front p).line - 1 = (front.take p).count '\n' := by
    rw [after, line_foldl_step]
    simp
  rw [List.length_take] at hle
  rw [placeOf, placeOf, hafter, Position.offset, Position.offset, hcount, hfront, hboth, after,
    List.length_append]
  simp only
  rw [if_pos (by omega), if_pos (by omega)]

/-- **Places come out where they are moved to**, if whole lines are put in at the start of
a line. -/
theorem placeOf_moved (hfront : EndsLine front) (hinserted : EndsLine inserted) (p : Nat) :
    placeOf (front ++ (inserted ++ back)) (moved front.length inserted.length p) =
      moved front.length inserted.length (placeOf (front ++ back) p) := by
  by_cases hp : p < front.length
  · have hle := placeOf_le front p (Nat.le_of_lt hp)
    rw [moved_of_lt hp, placeOf_front hp, placeOf_front hp, moved_of_lt (by omega)]
  · obtain ⟨q, rfl⟩ := Nat.exists_eq_add_of_le (Nat.le_of_not_lt hp)
    have hmove : front.length + q + inserted.length = front.length + (inserted.length + q) := by
      omega
    rw [moved_of_le (by omega), hmove, placeOf_append hfront, placeOf_append hinserted,
      placeOf_append hfront, moved_of_le (by omega)]
    omega

theorem le_placeOf (hfront : EndsLine front) (h : front.length ≤ p) :
    front.length ≤ placeOf (front ++ back) p := by
  obtain ⟨q, rfl⟩ := Nat.exists_eq_add_of_le h
  rw [placeOf_append hfront]
  omega

end Places

section Trimmed

/-- What is kept of a text from which blanks at the start are trimmed off. -/
def keptLines (cs : List Char) : List Char :=
  trimEnd (['\n'].intercalate (dropComments (splitAt (· == '\n') cs).reverse).reverse)

variable {line blanks : List Char}

/-- Blanks behind a line leave it what it is. -/
theorem isBlankLine_append (h : IsBlankText blanks) :
    isBlankLine (line ++ blanks) = isBlankLine line := by
  rw [isBlankLine, isBlankLine, trim_append h]

theorem isCommentLine_blanks (h : IsBlankText blanks) :
    isCommentLine (line ++ blanks) = isCommentLine line := by
  rw [isCommentLine, isCommentLine, trimStart, trimStart, List.dropWhile_append]
  split
  · rename_i hempty
    rw [List.isEmpty_iff] at hempty
    rw [hempty, List.dropWhile_eq_nil_iff.mpr h]
  · rename_i hne
    obtain ⟨x, rest, hline⟩ := List.exists_cons_of_ne_nil (mt List.isEmpty_iff.mpr hne)
    rw [hline]
    rfl

/-- The last line of several is dropped if it is a comment or blank. -/
theorem keptLines_append_line (cs : List Char) (hfeed : '\n' ∉ line) :
    keptLines (cs ++ '\n' :: line) = if isCommentLine line || isBlankLine line then keptLines cs
      else trimEnd (cs ++ '\n' :: line) := by
  obtain ⟨last, lines, hlines⟩ : ∃ last lines, (splitAt (· == '\n') cs).reverse = last :: lines :=
    List.exists_cons_of_ne_nil (by simpa using splitAt_ne_nil _ cs)
  have hsplit : (splitAt (· == '\n') (cs ++ '\n' :: line)).reverse = line :: last :: lines := by
    rw [splitAt_append_feed, splitAt_of_not_mem hfeed, List.reverse_append, hlines]
    rfl
  rw [keptLines, hsplit, dropComments]
  split
  · rw [← hlines, keptLines]
  · rw [← hsplit, List.reverse_reverse, intercalate_splitAt]

/-- A single line stays. -/
theorem keptLines_of_not_mem (hfeed : '\n' ∉ line) : keptLines line = trimEnd line := by
  rw [keptLines, splitAt_of_not_mem hfeed, List.reverse_singleton, dropComments,
    List.reverse_singleton, List.intercalate_singleton]
  simp

/-- A blank at the end is trimmed off. -/
theorem keptLines_concat (cs : List Char) {c : Char} (hc : isBlank c) :
    keptLines (cs ++ [c]) = keptLines cs := by
  have hblank : IsBlankText [c] := by simpa [IsBlankText] using hc
  by_cases hfeed : c = '\n'
  · have hline : isCommentLine [] || isBlankLine [] := rfl
    rw [hfeed, keptLines_append_line cs (by simp), if_pos hline]
  · -- the blank stands on the last line
    rcases exists_last_line cs with ⟨before, line, rfl, hline⟩ | hline
    · have hline' : '\n' ∉ line ++ [c] := by simpa [hline] using Ne.symm hfeed
      rw [List.append_assoc, List.cons_append, keptLines_append_line _ hline',
        keptLines_append_line _ hline, isCommentLine_blanks hblank, isBlankLine_append hblank,
        ← List.cons_append, ← List.append_assoc, trimEnd_append hblank]
    · have hline' : '\n' ∉ cs ++ [c] := by simpa [hline] using Ne.symm hfeed
      rw [keptLines_of_not_mem hline, keptLines_of_not_mem hline', trimEnd_append hblank]

theorem keptLines_append {blanks : List Char} (cs : List Char) (h : IsBlankText blanks) :
    keptLines (cs ++ blanks) = keptLines cs := by
  induction blanks generalizing cs with
  | nil => rw [List.append_nil]
  | cons c blanks ih =>
    rw [← List.singleton_append, ← List.append_assoc,
      ih _ fun d hd => h d (List.mem_cons_of_mem _ hd), keptLines_concat _ (h c List.mem_cons_self)]

theorem trimDefinition_eq (text : List Char) : trimDefinition text = keptLines (trimStart text) := by
  obtain ⟨blanks, hsplit, hblanks, -⟩ := exists_trimEnd (trimStart text)
  rw [hsplit, keptLines_append _ hblanks]
  rfl

/-- What is kept of a text stands in it. -/
theorem trimDefinition_inside (text : List Char) : trimDefinition text <:+: text := by
  obtain ⟨blanks, hsplit, -, hfirst⟩ := exists_trimStart text
  cases hstart : trimStart text with
  | nil =>
    rw [trimDefinition_eq, hstart]
    exact List.nil_infix
  | cons c rest =>
    obtain ⟨cut, hcut, -⟩ := @exists_cut c rest (hfirst c (by rw [hstart]; rfl))
    have hkept : trimDefinition text = trimDefinition (c :: rest) := by
      rw [trimDefinition_eq, trimDefinition_eq, hstart,
        @trimStart_eq_self (c :: rest) fun d hd => hfirst d (by rw [hstart]; exact hd)]
    refine ⟨blanks, cut, ?_⟩
    rw [hkept, List.append_assoc, ← hcut, ← hstart]
    exact hsplit.symm

/-- Blanks at the start are trimmed off, up to a character that is no blank. -/
theorem trimStart_append {cs : List Char} (h : ∃ c ∈ cs, isBlank c = false) (more : List Char) :
    trimStart (cs ++ more) = trimStart cs ++ more := by
  rw [trimStart, trimStart, List.dropWhile_append, if_neg]
  rw [List.isEmpty_iff, List.dropWhile_eq_nil_iff]
  obtain ⟨c, hc, hblank⟩ := h
  intro hall
  rw [hall c hc] at hblank
  cases hblank

end Trimmed

section Comments

/-- Comments, each on a line of its own. -/
def commentLines (comments : List (List Char)) : List Char :=
  comments.flatMap fun body => '#' :: (body ++ ['\n'])

variable {comments : List (List Char)}

theorem commentLines_cons (body : List Char) (comments : List (List Char)) :
    commentLines (body :: comments) = '#' :: (body ++ '\n' :: commentLines comments) := by
  simp [commentLines]

theorem endsLine_commentLines (comments : List (List Char)) :
    EndsLine (commentLines comments) := by
  induction comments with
  | nil => exact nofun
  | cons body comments ih =>
    have hline : EndsLine ('#' :: (body ++ ['\n'])) := by
      intro c hc
      rw [← List.cons_append, List.getLast?_concat] at hc
      exact (Option.some.inj hc).symm
    have := hline.append ih
    rwa [List.cons_append, List.append_assoc, List.singleton_append, ← commentLines_cons] at this

/-- Behind a line, comments are dropped, and the blanks behind them. -/
theorem keptLines_comments (hfeed : ∀ body ∈ comments, '\n' ∉ body) {blanks : List Char}
    (hblanks : IsBlankText blanks) (cs : List Char) :
    keptLines (cs ++ '\n' :: (commentLines comments ++ blanks)) = keptLines cs := by
  induction comments generalizing cs with
  | nil =>
    exact keptLines_append cs (List.forall_mem_cons.mpr ⟨isBlank_of_lineFeed, hblanks⟩)
  | cons body comments ih =>
    rw [List.forall_mem_cons] at hfeed
    have hsplit : cs ++ '\n' :: (commentLines (body :: comments) ++ blanks) =
        (cs ++ '\n' :: '#' :: body) ++ '\n' :: (commentLines comments ++ blanks) := by
      rw [commentLines_cons]
      simp
    have hcomment : isCommentLine ('#' :: body) := rfl
    rw [hsplit, ih hfeed.2, keptLines_append_line cs (by simpa using hfeed.1), hcomment,
      Bool.true_or, if_pos rfl]

/-- **Comments behind a definition are trimmed off.** -/
theorem trimDefinition_comments (hfeed : ∀ body ∈ comments, '\n' ∉ body) {front blanks : List Char}
    (hline : EndsLine front) (hink : ∃ c ∈ front, isBlank c = false) (hblanks : IsBlankText blanks) :
    trimDefinition (front ++ (commentLines comments ++ blanks)) = trimDefinition front := by
  rcases hline.cases with rfl | ⟨before, rfl⟩
  · obtain ⟨c, hc, -⟩ := hink
    cases hc
  · have hbefore : ∃ c ∈ before, isBlank c = false := by
      obtain ⟨c, hc, hblank⟩ := hink
      refine ⟨c, (List.mem_append.mp hc).resolve_right fun hmem => ?_, hblank⟩
      rw [List.mem_singleton.mp hmem, isBlank_of_lineFeed] at hblank
      cases hblank
    rw [trimDefinition_eq, trimDefinition_eq, List.append_assoc, List.singleton_append,
      trimStart_append hbefore, trimStart_append hbefore, keptLines_comments hfeed hblanks,
      keptLines_concat _ isBlank_of_lineFeed]

/-- A line is what stands between line feeds, but for a carriage return. -/
theorem exists_of_mem_lines {cs line : List Char} (h : line ∈ lines cs) :
    ∃ piece ∈ splitAt (· == '\n') cs, line = piece ∨ line = dropReturn piece := by
  obtain ⟨front, last, hsplit⟩ : ∃ front last, splitAt (· == '\n') cs = front ++ [last] :=
    ⟨_, _, (List.dropLast_append_getLast (splitAt_ne_nil _ cs)).symm⟩
  have hended : line ∈ front.map dropReturn → ∃ piece ∈ splitAt (· == '\n') cs,
      line = piece ∨ line = dropReturn piece := by
    intro hmem
    obtain ⟨piece, hpiece, rfl⟩ := List.mem_map.mp hmem
    exact ⟨piece, by rw [hsplit]; exact List.mem_append_left _ hpiece, .inr rfl⟩
  unfold lines at h
  simp only [hsplit, List.dropLast_concat, List.getLast?_concat] at h
  cases last with
  | nil => exact hended h
  | cons c last =>
    rcases List.mem_append.mp h with h | h
    · exact hended h
    · exact ⟨_, by rw [hsplit]; exact List.mem_append_right _ h, .inl rfl⟩

/-- A text is taken for comments by its lines. -/
theorem isCommentOnly_eq (cs : List Char) : isCommentOnly cs =
    (splitAt (· == '\n') cs).all fun line => isBlankLine line || isCommentLine line := by
  rw [Bool.eq_iff_iff]
  constructor
  · intro h
    refine List.all_eq_true.mpr fun line hline => ?_
    rw [Bool.or_comm]
    exact line_of_isCommentOnly h hline
  · intro h
    rw [List.all_eq_true] at h
    refine List.all_eq_true.mpr fun line hline => ?_
    obtain ⟨piece, hpiece, hdropped⟩ := exists_of_mem_lines hline
    obtain ⟨blanks, hsplit, hblanks⟩ : ∃ blanks, piece = line ++ blanks ∧ IsBlankText blanks := by
      rcases hdropped with rfl | rfl
      · exact ⟨[], by simp, by simp [IsBlankText]⟩
      · exact exists_dropReturn piece
    have hkind := h piece hpiece
    rwa [hsplit, isBlankLine_append hblanks, isCommentLine_blanks hblanks] at hkind

/-- Comments put in at the start of a line make no difference to it. -/
theorem isCommentOnly_comments (hfeed : ∀ body ∈ comments, '\n' ∉ body) {front : List Char}
    (hline : EndsLine front) (back : List Char) :
    isCommentOnly (front ++ (commentLines comments ++ back)) = isCommentOnly (front ++ back) := by
  have hcomments : ∀ back, isCommentOnly (commentLines comments ++ back) = isCommentOnly back := by
    intro back
    induction comments with
    | nil => rfl
    | cons body comments ih =>
      rw [List.forall_mem_cons] at hfeed
      have hcomment : isCommentLine ('#' :: body) := rfl
      have hbody : '\n' ∉ '#' :: body := by simpa using hfeed.1
      have hrest := ih hfeed.2
      rw [isCommentOnly_eq, isCommentOnly_eq] at hrest
      rw [commentLines_cons, isCommentOnly_eq, isCommentOnly_eq, List.cons_append,
        List.append_assoc, List.cons_append, ← List.cons_append, splitAt_append_feed,
        splitAt_of_not_mem hbody, List.singleton_append, List.all_cons, hcomment, Bool.or_true,
        Bool.true_and, hrest]
  rcases hline.cases with rfl | ⟨before, rfl⟩
  · exact hcomments back
  · have hback := hcomments back
    rw [isCommentOnly_eq, isCommentOnly_eq] at hback
    rw [isCommentOnly_eq, isCommentOnly_eq, List.append_assoc, List.append_assoc,
      List.singleton_append, List.singleton_append, splitAt_append_feed, splitAt_append_feed,
      List.all_append, List.all_append, hback]

end Comments

end Sdl
end EntitySdl
