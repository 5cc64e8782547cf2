import EntitySdl.Proofs.Places
import Mathlib.Data.List.TakeWhile

/-! # Trimming

A text falls into lines and is put together from them again.  What is trimmed off
the end of a definition are blanks and whole lines of comments; a definition
without these is kept as it is, whatever blanks stand behind it.
-/
namespace EntitySdl
namespace Text

/-- A text of blanks only. -/
def IsBlankText (cs : List Char) : Prop := ∀ c ∈ cs, isBlank c

theorem IsBlankText.append {cs ds : List Char} (h : IsBlankText cs) (h' : IsBlankText ds) :
    IsBlankText (cs ++ ds) := by
  intro c hc
  rcases List.mem_append.mp hc with hc | hc
  · exact h c hc
  · exact h' c hc

theorem isBlank_of_lineFeed : isBlank '\n' := by decide

theorem intercalate_splitAt (cs : List Char) :
    ['\n'].intercalate (splitAt (· == '\n') cs) = cs := by
  induction cs with
  | nil => rfl
  | cons c cs ih =>
    cases hsplit : splitAt (· == '\n') cs with
    | nil => exact absurd hsplit (splitAt_ne_nil _ cs)
    | cons piece pieces =>
      rw [hsplit] at ih
      unfold splitAt
      by_cases hc : c = '\n'
      · rw [if_pos (by simp [hc]), hsplit, hc]
        simpa [List.intercalate] using ih
      · rw [if_neg (by simpa using hc), hsplit]
        cases pieces with
        | nil => simpa [List.intercalate] using ih
        | cons piece' pieces => simpa [List.intercalate] using ih

/-- Lists of texts are put together one behind the other. -/
theorem intercalate_append {sep : List Char} {xs ys : List (List Char)} (hxs : xs ≠ [])
    (hys : ys ≠ []) :
    sep.intercalate (xs ++ ys) = sep.intercalate xs ++ (sep ++ sep.intercalate ys) := by
  induction xs with
  | nil => exact absurd rfl hxs
  | cons x xs ih =>
    cases xs with
    | nil =>
      obtain ⟨y, ys, rfl⟩ := List.exists_cons_of_ne_nil hys
      simp [List.intercalate_cons_cons]
    | cons x' xs =>
      have := ih (by simp)
      rw [List.cons_append] at this
      simp only [List.cons_append, List.intercalate_cons_cons, this, List.append_assoc]

theorem splitAt_of_not_mem {cs : List Char} (h : '\n' ∉ cs) : splitAt (· == '\n') cs = [cs] :=
  splitAt_eq_singleton fun _ hc => beq_eq_false_iff_ne.mpr (ne_of_mem_of_not_mem hc h)

theorem splitAt_append_feed (cs ds : List Char) :
    splitAt (· == '\n') (cs ++ '\n' :: ds) =
      splitAt (· == '\n') cs ++ splitAt (· == '\n') ds :=
  splitAt_append_cons rfl cs ds

/-- The text behind the last line feed is determined. -/
theorem last_line_unique {before before' line line' : List Char} (hline : '\n' ∉ line)
    (hline' : '\n' ∉ line') (h : before ++ '\n' :: line = before' ++ '\n' :: line') :
    line = line' := by
  have hlast := congrArg (fun cs => (splitAt (· == '\n') cs).getLast?) h
  simp only [splitAt_append_feed, splitAt_of_not_mem hline, splitAt_of_not_mem hline',
    List.getLast?_concat, Option.some.injEq] at hlast
  exact hlast

theorem trimEnd_append {cs blanks : List Char} (h : IsBlankText blanks) :
    trimEnd (cs ++ blanks) = trimEnd cs := by
  rw [trimEnd, List.reverse_append, List.dropWhile_append_of_pos, ← trimEnd]
  intro c hc
  exact h c (List.mem_reverse.mp hc)

theorem trimEnd_eq_self {cs : List Char} (h : ∀ c, cs.getLast? = some c → isBlank c = false) :
    trimEnd cs = cs := by
  rw [trimEnd]
  cases hreverse : cs.reverse with
  | nil => simpa using hreverse
  | cons c rest =>
    have hlast : cs.getLast? = some c := by
      rw [List.getLast?_eq_head?_reverse, hreverse]
      rfl
    rw [List.dropWhile_cons_of_neg (by simp [h c hlast]), ← hreverse, List.reverse_reverse]

theorem trimStart_eq_self {cs : List Char} (h : ∀ c, cs.head? = some c → isBlank c = false) :
    trimStart cs = cs := by
  cases cs with
  | nil => rfl
  | cons c rest => rw [trimStart, List.dropWhile_cons_of_neg (by simp [h c rfl])]

/-- What is trimmed off the end are blanks. -/
theorem exists_trimEnd (cs : List Char) : ∃ blanks, cs = trimEnd cs ++ blanks ∧
    IsBlankText blanks ∧ ∀ c, (trimEnd cs).getLast? = some c → isBlank c = false := by
  refine ⟨(cs.reverse.takeWhile isBlank).reverse, ?_, ?_, ?_⟩
  · rw [trimEnd, ← List.reverse_append, List.takeWhile_append_dropWhile, List.reverse_reverse]
  · intro c hc
    exact List.mem_takeWhile_imp (List.mem_reverse.mp hc)
  · intro c hc
    rw [trimEnd, List.getLast?_reverse] at hc
    have := List.head?_dropWhile_not isBlank cs.reverse
    rw [hc] at this
    simpa using this

/-- What is trimmed off the start are blanks. -/
theorem exists_trimStart (cs : List Char) : ∃ blanks, cs = blanks ++ trimStart cs ∧
    IsBlankText blanks ∧ ∀ c, (trimStart cs).head? = some c → isBlank c = false := by
  refine ⟨cs.takeWhile isBlank, ?_, ?_, ?_⟩
  · rw [trimStart, List.takeWhile_append_dropWhile]
  · intro c hc
    exact List.mem_takeWhile_imp hc
  · intro c hc
    have := List.head?_dropWhile_not isBlank cs
    rw [trimStart] at hc
    rw [hc] at this
    simpa using this

theorem trim_eq_nil_iff {cs : List Char} : trim cs = [] ↔ IsBlankText cs := by
  constructor
  · intro h
    obtain ⟨blanks, hcs, hblanks, -⟩ := exists_trimStart cs
    obtain ⟨blanks', hcs', hblanks', -⟩ := exists_trimEnd (trimStart cs)
    rw [trim] at h
    rw [h, List.nil_append] at hcs'
    rw [hcs, hcs']
    exact hblanks.append hblanks'
  · intro h
    have := @trimEnd_append [] (trimStart cs) fun c hc =>
      h c ((List.dropWhile_sublist _).mem hc)
    rwa [List.nil_append] at this

end Text
namespace Sdl

open Text

/-- A text of blanks and comments, each of which ends with its line. -/
inductive IsShade : List Char → Prop where
  /-- Nothing is left. -/
  | nil : IsShade []
  /-- A blank comes first. -/
  | blank {c cs} (hc : isBlank c) (h : IsShade cs) : IsShade (c :: cs)
  /-- A comment comes first. -/
  | comment {body cs} (hbody : '\n' ∉ body) (hline : cs = [] ∨ cs.head? = some '\n')
      (h : IsShade cs) : IsShade ('#' :: (body ++ cs))

theorem IsShade.blanks {blanks cs : List Char} (hblanks : IsBlankText blanks) (h : IsShade cs) :
    IsShade (blanks ++ cs) := by
  induction blanks with
  | nil => exact h
  | cons c blanks ih =>
    exact .blank (hblanks c List.mem_cons_self)
      (ih fun d hd => hblanks d (List.mem_cons_of_mem _ hd))

/-- A line that is blank or a comment is shade. -/
theorem IsShade.line {line cs : List Char} (hfeed : '\n' ∉ line)
    (hline : isCommentLine line || isBlankLine line) (hcs : cs = [] ∨ cs.head? = some '\n')
    (h : IsShade cs) : IsShade (line ++ cs) := by
  rw [Bool.or_eq_true] at hline
  rcases hline with hline | hline
  · obtain ⟨blanks, hsplit, hblanks, -⟩ := exists_trimStart line
    cases hstart : trimStart line with
    | nil => simp [isCommentLine, hstart] at hline
    | cons c body =>
      simp only [isCommentLine, hstart, List.head?_cons, beq_iff_eq, Option.some.injEq] at hline
      rw [hstart, hline] at hsplit
      rw [hsplit, List.append_assoc]
      refine .blanks hblanks (.comment (fun hmem => hfeed ?_) hcs h)
      rw [hsplit]
      exact List.mem_append_right _ (List.mem_cons_of_mem _ hmem)
  · exact .blanks (trim_eq_nil_iff.mp (by simpa [isBlankLine] using hline)) h

/-- A definition without blanks around it and without comments behind it. -/
structure IsKept (text : List Char) : Prop where
  /-- It begins with no blank. -/
  first : ∃ c rest, text = c :: rest ∧ isBlank c = false
  /-- It ends with no blank. -/
  last : ∀ c, text.getLast? = some c → isBlank c = false
  /-- Its last line is no comment, unless it is the first. -/
  line : ∀ before line, text = before ++ '\n' :: line → '\n' ∉ line → isCommentLine line = false

theorem dropComments_cons {last : List Char} {lines : List (List Char)}
    (h : lines = [] ∨ (isCommentLine last = false ∧ isBlankLine last = false)) :
    dropComments (last :: lines) = last :: lines := by
  cases lines with
  | nil => simp [dropComments]
  | cons line lines =>
    obtain ⟨hcomment, hblank⟩ := h.resolve_left (by simp)
    simp [dropComments, hcomment, hblank]

theorem not_isBlankLine {line : List Char} {c : Char} (hc : c ∈ line) (hblank : isBlank c = false) :
    isBlankLine line = false := by
  rw [isBlankLine, List.isEmpty_eq_false_iff]
  intro h
  rw [trim_eq_nil_iff.mp h c hc] at hblank
  cases hblank

/-- What is kept once is kept again, whatever blanks stand behind it. -/
theorem trimDefinition_of_isKept {text blanks : List Char} (h : IsKept text)
    (hblanks : IsBlankText blanks) : trimDefinition (text ++ blanks) = text := by
  obtain ⟨c, rest, hfirst, hc⟩ := h.first
  have htrim : trim (text ++ blanks) = text := by
    have hstart : trimStart (text ++ blanks) = text ++ blanks :=
      trimStart_eq_self fun d hd => by
        rw [hfirst, List.cons_append, List.head?_cons, Option.some.injEq] at hd
        rwa [← hd]
    rw [trim, hstart, trimEnd_append hblanks, trimEnd_eq_self h.last]
  have hlines : dropComments (splitAt (· == '\n') text).reverse =
      (splitAt (· == '\n') text).reverse := by
    rcases exists_last_line text with ⟨before, line, hsplit, hline⟩ | hfeed
    · rw [hsplit, splitAt_append_feed, splitAt_of_not_mem hline, List.reverse_append]
      refine dropComments_cons (.inr ⟨h.line before line hsplit hline, ?_⟩)
      cases hreverse : line.getLast? with
      | none =>
        rw [List.getLast?_eq_none_iff] at hreverse
        have := h.last '\n' (by rw [hsplit, hreverse]; simp)
        rw [isBlank_of_lineFeed] at this
        cases this
      | some d =>
        have hd : text.getLast? = some d := by
          rw [hsplit, List.getLast?_append, List.getLast?_cons, hreverse]
          rfl
        exact not_isBlankLine (List.mem_of_getLast? hreverse) (h.last d hd)
    · rw [splitAt_of_not_mem hfeed]
      exact dropComments_cons (.inl rfl)
  rw [trimDefinition, htrim, hlines, List.reverse_reverse, intercalate_splitAt,
    trimEnd_eq_self h.last]

/-- The lines that are dropped are comments and blank lines, and the last line that
stays is neither, unless it is the first. -/
theorem exists_dropComments {lines : List (List Char)} (hne : lines ≠ []) :
    ∃ dropped kept, lines = dropped ++ kept ∧ dropComments lines = kept ∧ kept ≠ [] ∧
      (∀ line ∈ dropped, isCommentLine line || isBlankLine line) ∧
      ∀ last line more, kept = last :: line :: more →
        isCommentLine last = false ∧ isBlankLine last = false := by
  induction lines with
  | nil => exact absurd rfl hne
  | cons last rest ih =>
    cases rest with
    | nil => exact ⟨[], [last], rfl, rfl, by simp, by simp, by simp⟩
    | cons line more =>
      by_cases hdrop : isCommentLine last || isBlankLine last
      · obtain ⟨dropped, kept, hsplit, hkept, hne, hall, hlast⟩ := ih (by simp)
        refine ⟨last :: dropped, kept, by rw [hsplit]; rfl, ?_, hne, ?_, hlast⟩
        · rw [dropComments, if_pos hdrop, hkept]
        · exact List.forall_mem_cons.mpr ⟨hdrop, hall⟩
      · refine ⟨[], last :: line :: more, rfl, ?_, by simp, by simp, ?_⟩
        · rw [dropComments, if_neg hdrop]
        · rintro _ _ _ ⟨⟩
          simpa using hdrop

theorem isCommentLine_append {line : List Char} (h : isCommentLine line) (more : List Char) :
    isCommentLine (line ++ more) := by
  obtain ⟨blanks, hsplit, hblanks, hstart⟩ := exists_trimStart line
  unfold isCommentLine at h ⊢
  cases htrim : trimStart line with
  | nil => simp [htrim] at h
  | cons c body =>
    have hc := hstart c (by rw [htrim]; rfl)
    have htrim' : trimStart (line ++ more) = c :: (body ++ more) := by
      rw [hsplit, htrim, trimStart, List.append_assoc, List.dropWhile_append_of_pos hblanks,
        List.cons_append, List.dropWhile_cons_of_neg (by simp [hc])]
    rw [htrim] at h
    rwa [htrim']

/-- A line that is blank or a comment stays so with blanks behind it. -/
theorem IsShade.line_blanks {line blanks : List Char} (hfeed : '\n' ∉ line)
    (hline : isCommentLine line || isBlankLine line) (hblanks : IsBlankText blanks) :
    IsShade (line ++ blanks) := by
  have hsplit := List.takeWhile_append_dropWhile (p := (· != '\n')) (l := blanks)
  have hfront : ∀ c ∈ blanks.takeWhile (· != '\n'), isBlank c ∧ c ≠ '\n' := fun c hc =>
    ⟨hblanks c ((List.takeWhile_sublist _).mem hc), by simpa using List.mem_takeWhile_imp hc⟩
  have hback : IsShade (blanks.dropWhile (· != '\n')) := by
    have := IsShade.nil.blanks fun c hc => hblanks c ((List.dropWhile_sublist (· != '\n')).mem hc)
    rwa [List.append_nil] at this
  rw [← hsplit, ← List.append_assoc]
  refine IsShade.line ?_ ?_ ?_ hback
  · rw [List.mem_append, not_or]
    exact ⟨hfeed, fun hmem => (hfront _ hmem).2 rfl⟩
  · rw [Bool.or_eq_true] at hline ⊢
    rcases hline with hline | hline
    · exact .inl (isCommentLine_append hline _)
    · rw [isBlankLine, List.isEmpty_iff, trim_eq_nil_iff] at hline ⊢
      exact .inr (hline.append fun c hc => (hfront c hc).1)
  · cases hdrop : blanks.dropWhile (· != '\n') with
    | nil => exact .inl rfl
    | cons c rest =>
      have := List.head?_dropWhile_not (· != '\n') blanks
      rw [hdrop] at this
      exact .inr (by simpa using this)

/-- Dropped lines and the blanks behind them are shade. -/
theorem isShade_dropped {dropped : List (List Char)} {blanks : List Char}
    (hfeed : ∀ line ∈ dropped, '\n' ∉ line)
    (hdropped : ∀ line ∈ dropped, isCommentLine line || isBlankLine line)
    (hblanks : IsBlankText blanks) (hne : dropped ≠ []) :
    IsShade (['\n'].intercalate dropped ++ blanks) := by
  induction dropped with
  | nil => exact absurd rfl hne
  | cons line rest ih =>
    rw [List.forall_mem_cons] at hfeed hdropped
    cases rest with
    | nil =>
      rw [List.intercalate_singleton]
      exact IsShade.line_blanks hfeed.1 hdropped.1 hblanks
    | cons next rest =>
      have hrest := ih hfeed.2 hdropped.2 (by simp)
      rw [List.intercalate_cons_cons, List.append_assoc, List.append_assoc]
      exact IsShade.line hfeed.1 hdropped.1 (.inr rfl) (.blank isBlank_of_lineFeed hrest)

/-- The last line stays what it is when blanks behind it are trimmed off. -/
theorem isCommentLine_of_trimEnd {before before' line last : List Char} (hfeed : '\n' ∉ last)
    (hcomment : isCommentLine last = false) (hblank : isBlankLine last = false)
    (hline : '\n' ∉ line) (h : trimEnd (before ++ '\n' :: last) = before' ++ '\n' :: line) :
    isCommentLine line = false := by
  obtain ⟨blanks, hsplit, hblanks, -⟩ := exists_trimEnd (before ++ '\n' :: last)
  rw [h] at hsplit
  -- the blanks do not reach beyond the last line, which is not blank
  have hback : '\n' ∉ blanks := by
    intro hmem
    rcases exists_last_line blanks with ⟨front, back, hback, hfree⟩ | hfree
    · have hlast : last = back := by
        refine @last_line_unique before
          (before' ++ '\n' :: (line ++ front)) _ _ hfeed hfree ?_
        rw [hsplit, hback]
        simp
      have hall : IsBlankText last := fun c hc => hblanks c (by
        rw [hback, ← hlast]
        exact List.mem_append_right _ (List.mem_cons_of_mem _ hc))
      rw [isBlankLine, trim_eq_nil_iff.mpr hall] at hblank
      cases hblank
    · exact hfree hmem
  have hlast : last = line ++ blanks := by
    refine @last_line_unique before before' _ _ hfeed ?_ ?_
    · rw [List.mem_append, not_or]
      exact ⟨hline, hback⟩
    · rw [hsplit, List.append_assoc, List.cons_append]
  cases hcase : isCommentLine line with
  | false => rfl
  | true =>
    rw [hlast, isCommentLine_append hcase] at hcomment
    cases hcomment

/-- Lines of which the last is no comment and not blank are kept but for the blanks
behind them. -/
theorem isKept_trimEnd {c : Char} {more : List Char} {kept : List (List Char)}
    (hfirst : ['\n'].intercalate kept.reverse = c :: more) (hc : isBlank c = false)
    (hne : kept ≠ []) (hfeed : ∀ line ∈ kept, '\n' ∉ line)
    (hlast : ∀ last line rest, kept = last :: line :: rest →
      isCommentLine last = false ∧ isBlankLine last = false) :
    IsKept (trimEnd (['\n'].intercalate kept.reverse)) := by
  obtain ⟨blanks, hsplit, hblanks, hend⟩ := exists_trimEnd (['\n'].intercalate kept.reverse)
  refine ⟨?_, hend, fun before line hline hfree => ?_⟩
  · rw [hfirst] at hsplit ⊢
    cases htrim : trimEnd (c :: more) with
    | nil =>
      rw [htrim, List.nil_append] at hsplit
      have := hblanks c (by rw [← hsplit]; exact List.mem_cons_self)
      rw [hc] at this
      cases this
    | cons d rest =>
      rw [htrim] at hsplit
      cases hsplit
      exact ⟨c, rest, rfl, hc⟩
  · cases kept with
    | nil => exact absurd rfl hne
    | cons last rest =>
      rw [List.forall_mem_cons] at hfeed
      cases rest with
      | nil =>
        -- a single line has no line before it
        refine absurd ?_ hfeed.1
        rw [List.reverse_singleton, List.intercalate_singleton] at hsplit hline
        rw [hsplit, hline]
        simp
      | cons line' rest =>
        obtain ⟨hcomment, hblank⟩ := hlast last line' rest rfl
        rw [List.reverse_cons, intercalate_append (by simp) (by simp),
          List.intercalate_singleton] at hline
        exact isCommentLine_of_trimEnd hfeed.1 hcomment hblank hfree hline

/-- Behind the lines that are kept come the dropped ones, and then blanks. -/
theorem exists_tail {text blanks : List Char} {dropped kept : List (List Char)}
    (hpieces : splitAt (· == '\n') text = kept.reverse ++ dropped.reverse) (hne : kept ≠ [])
    (hdropped : ∀ line ∈ dropped, isCommentLine line || isBlankLine line)
    (hfeed : ∀ line ∈ dropped, '\n' ∉ line) (hblanks : IsBlankText blanks) :
    ∃ tail, text ++ blanks = ['\n'].intercalate kept.reverse ++ tail ∧ IsShade tail ∧
      ∀ x, tail.head? = some x → isBlank x := by
  have hwhole := intercalate_splitAt text
  rw [hpieces] at hwhole
  by_cases hnil : dropped = []
  · rw [hnil, List.reverse_nil, List.append_nil] at hwhole
    have hshade := IsShade.nil.blanks hblanks
    rw [List.append_nil] at hshade
    exact ⟨blanks, by rw [hwhole], hshade, fun x hx => hblanks x (List.mem_of_head? hx)⟩
  · rw [intercalate_append (by simpa using hne) (by simpa using hnil)] at hwhole
    refine ⟨'\n' :: (['\n'].intercalate dropped.reverse ++ blanks), ?_,
      .blank isBlank_of_lineFeed (isShade_dropped ?_ ?_ hblanks (by simpa using hnil)), ?_⟩
    · rw [← hwhole]
      simp
    · exact fun line hline => hfeed line (List.mem_reverse.mp hline)
    · exact fun line hline => hdropped line (List.mem_reverse.mp hline)
    · rintro x ⟨⟩
      exact isBlank_of_lineFeed

/-- The text of a definition is trimmed, and what is cut off behind it is shade. -/
theorem exists_cut {c : Char} {rest : List Char} (hc : isBlank c = false) :
    ∃ cut, c :: rest = trimDefinition (c :: rest) ++ cut ∧ IsShade cut ∧
      (∀ x, cut.head? = some x → isBlank x) ∧ IsKept (trimDefinition (c :: rest)) := by
  have hstart : trimStart (c :: rest) = c :: rest := trimStart_eq_self (by simpa using hc)
  obtain ⟨blanks, hslice, hblanks, -⟩ := exists_trimEnd (c :: rest)
  obtain ⟨dropped, kept, hlines, hkept, hne, hdropped, hlast⟩ :=
    @exists_dropComments (splitAt (· == '\n') (trimEnd (c :: rest))).reverse
      (by simpa using splitAt_ne_nil _ _)
  have hpieces : splitAt (· == '\n') (trimEnd (c :: rest)) = kept.reverse ++ dropped.reverse := by
    rw [← List.reverse_append, ← hlines, List.reverse_reverse]
  have hfeed : ∀ piece ∈ kept.reverse ++ dropped.reverse, '\n' ∉ piece := by
    rw [← hpieces]
    intro piece hpiece hmem
    cases splitAt_separates hpiece _ hmem
  simp only [List.mem_append, List.mem_reverse] at hfeed
  have htext : trimDefinition (c :: rest) = trimEnd (['\n'].intercalate kept.reverse) := by
    rw [trimDefinition, trim, hstart, hkept]
  obtain ⟨blanks', hv, hblanks', -⟩ := exists_trimEnd (['\n'].intercalate kept.reverse)
  obtain ⟨tail, hu, htail, hhead⟩ :=
    exists_tail hpieces hne hdropped (fun line hline => hfeed line (.inr hline)) hblanks
  rw [← hslice] at hu
  -- the first character is no blank, so that its line is kept
  obtain ⟨more, hfirst⟩ : ∃ more, ['\n'].intercalate kept.reverse = c :: more := by
    cases hvalue : ['\n'].intercalate kept.reverse with
    | nil =>
      rw [hvalue, List.nil_append] at hu
      have := hhead c (by rw [← hu]; rfl)
      rw [hc] at this
      cases this
    | cons d more =>
      rw [hvalue] at hu
      cases hu
      exact ⟨more, rfl⟩
  refine ⟨blanks' ++ tail, ?_, htail.blanks hblanks', ?_, ?_⟩
  · rw [htext, ← List.append_assoc, ← hv, ← hu]
  · intro x hx
    cases blanks' with
    | nil => exact hhead x hx
    | cons b blanks' =>
      cases hx
      exact hblanks' _ List.mem_cons_self
  · rw [htext]
    exact isKept_trimEnd hfirst hc hne (fun line hline => hfeed line (.inl hline)) hlast

end Sdl
end EntitySdl
