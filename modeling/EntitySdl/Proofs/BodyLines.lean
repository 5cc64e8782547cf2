import EntitySdl.Proofs.Blocks
import EntitySdl.Proofs.Trimming

/-! # The lines of a root type

The body of a root type is cut out of its text between the first field and the
closing brace, and falls into trimmed lines.  The lines that a root type is
written with come out again.
-/
namespace EntitySdl
namespace Sdl

open Name Text

/-- A line of a body: it is not empty, it is one line, and no blanks stand around
it. -/
structure IsBodyLine (line : List Char) : Prop where
  /-- It has a first character, which is no blank. -/
  first : ∃ c rest, line = c :: rest ∧ isBlank c = false
  /-- It ends with no blank. -/
  last : ∀ c, line.getLast? = some c → isBlank c = false
  /-- It has no line feed. -/
  feed : '\n' ∉ line
  /-- It has no carriage return. -/
  carriage : '\r' ∉ line

/-- What stands between two lines of a body. -/
def lineGap : List Char := "\n  ".toList

/-- Lines as they stand in a body. -/
def joinLines (lines : List (List Char)) : List Char := lineGap.intercalate lines

section Lines

variable {line : List Char} {lines : List (List Char)}

theorem trim_of_isBodyLine {blanks : List Char} (h : IsBodyLine line)
    (hblanks : IsBlankText blanks) : trim (blanks ++ line) = line := by
  obtain ⟨c, rest, rfl, hc⟩ := h.first
  rw [trim, trimStart, List.dropWhile_append_of_pos hblanks, ← trimStart,
    trimStart_eq_self (by simpa using hc), trimEnd_eq_self h.last]

theorem dropReturn_of_isBodyLine {blanks : List Char} (h : IsBodyLine line) :
    dropReturn (blanks ++ line) = blanks ++ line := by
  obtain ⟨c, rest, hline, -⟩ := h.first
  unfold dropReturn
  split
  · rename_i rest' hreverse
    have hlast : line.getLast? = some '\r' := by
      have : (blanks ++ line).getLast? = some '\r' := by
        rw [List.getLast?_eq_head?_reverse, hreverse]
        rfl
      rw [List.getLast?_append] at this
      rw [hline] at this ⊢
      simpa using this
    exact absurd (List.mem_of_getLast? hlast) h.carriage
  · rfl

theorem not_mem_joinLines {c : Char} (hc : c ∉ lineGap) (h : ∀ line ∈ lines, c ∉ line) :
    c ∉ joinLines lines := by
  induction lines with
  | nil => simp [joinLines]
  | cons line rest ih =>
    rw [List.forall_mem_cons] at h
    cases rest with
    | nil => simpa [joinLines] using h.1
    | cons next rest =>
      have := ih h.2
      simp only [joinLines, List.intercalate_cons_cons, List.mem_append, not_or] at this ⊢
      exact ⟨⟨h.1, hc⟩, this⟩

/-- A body falls into its lines, each with the gap before it. -/
theorem splitAt_joinLines (h : ∀ line ∈ lines, '\n' ∉ line) {first : List Char}
    (hfirst : '\n' ∉ first) : splitAt (· == '\n') (joinLines (first :: lines)) =
      first :: lines.map ("  ".toList ++ ·) := by
  induction lines generalizing first with
  | nil => simpa [joinLines] using splitAt_of_not_mem hfirst
  | cons next rest ih =>
    rw [List.forall_mem_cons] at h
    have hjoin : joinLines (first :: next :: rest) =
        first ++ '\n' :: ("  ".toList ++ joinLines (next :: rest)) := by
      simp [joinLines, List.intercalate_cons_cons, lineGap]
    have hspaces : ∀ cs piece pieces, splitAt (· == '\n') cs = piece :: pieces →
        splitAt (· == '\n') ("  ".toList ++ cs) = ("  ".toList ++ piece) :: pieces := by
      intro cs piece pieces hsplit
      change splitAt (· == '\n') (' ' :: ' ' :: cs) = _
      rw [splitAt, splitAt, hsplit]
      rfl
    rw [hjoin, splitAt_append_feed, splitAt_of_not_mem hfirst, hspaces _ _ _ (ih h.2 h.1)]
    rfl

/-- The lines of a text that ends with a line feed. -/
theorem lines_append_feed (cs : List Char) :
    Text.lines (cs ++ ['\n']) = (splitAt (· == '\n') cs).map dropReturn := by
  unfold Text.lines
  rw [splitAt_append_feed]
  have hnil : splitAt (· == '\n') [] = [[]] := rfl
  simp only [hnil, List.dropLast_concat, List.getLast?_concat]

/-- Lines come out of their body again. -/
theorem trimmed_lines_joinLines (h : ∀ line ∈ lines, IsBodyLine line) (hne : lines ≠ []) :
    ((Text.lines (joinLines lines ++ ['\n'])).map trim).filter (!·.isEmpty) = lines := by
  cases lines with
  | nil => exact absurd rfl hne
  | cons first rest =>
    rw [List.forall_mem_cons] at h
    have htrim : ∀ line, IsBodyLine line → trim (dropReturn line) = line := fun line hline => by
      have hdrop := @dropReturn_of_isBodyLine _ [] hline
      rw [List.nil_append] at hdrop
      rw [hdrop]
      exact @trim_of_isBodyLine _ [] hline (by simp [IsBlankText])
    have hrest : ((rest.map ("  ".toList ++ ·)).map dropReturn).map trim = rest := by
      rw [List.map_map, List.map_map]
      refine (List.map_congr_left fun line hline => ?_).trans (List.map_id rest)
      have hline := h.2 line hline
      rw [Function.comp, Function.comp, dropReturn_of_isBodyLine hline]
      exact trim_of_isBodyLine hline (by simp [IsBlankText]; decide)
    rw [lines_append_feed, splitAt_joinLines (fun line hline => (h.2 line hline).feed) h.1.feed,
      List.map_cons, List.map_cons, hrest, htrim first h.1]
    refine List.filter_eq_self.mpr fun line hline => ?_
    have hbody : IsBodyLine line := by
      rcases List.mem_cons.mp hline with rfl | hline
      · exact h.1
      · exact h.2 line hline
    obtain ⟨c, more, rfl, -⟩ := hbody.first
    rfl

end Lines

end Sdl
end EntitySdl
