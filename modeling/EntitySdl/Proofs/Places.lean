import EntitySdl.Sdl.Split

/-! # Places by line and column

The place of a definition goes through its line and column.  It comes out where
the definition stands, provided that no carriage return stands before it on its line.
There is none if a carriage return in the text always belongs to the end of a line.
-/
namespace EntitySdl
namespace Sdl

/-- Every carriage return stands before a line feed. -/
def ReturnsEndLines (source : List Char) : Prop :=
  ∀ before behind, source = before ++ '\r' :: behind → behind.head? = some '\n'

theorem returnsEndLines_of_not_mem {cs : List Char} (h : '\r' ∉ cs) : ReturnsEndLines cs := by
  rintro before behind rfl
  simp at h

theorem ReturnsEndLines.of_append {before cs : List Char} (h : ReturnsEndLines (before ++ cs)) :
    ReturnsEndLines cs := fun left right hsplit =>
  h (before ++ left) right (by rw [hsplit, List.append_assoc])

theorem ReturnsEndLines.append {cs ds : List Char} (h : ReturnsEndLines cs)
    (h' : ReturnsEndLines ds) : ReturnsEndLines (cs ++ ds) := by
  intro before behind hsplit
  rcases List.append_eq_append_iff.mp hsplit with ⟨more, hbefore, hds⟩ | ⟨more, hcs, hmore⟩
  · exact h' more behind hds
  · cases more with
    | nil => exact h' [] behind (by simpa using hmore.symm)
    | cons c more =>
      simp only [List.cons_append, List.cons.injEq] at hmore
      obtain ⟨rfl, rfl⟩ := hmore
      rw [List.head?_append, h before more hcs]
      rfl

/-- On the line of a comment a carriage return stands at the end only. -/
def ReturnsEndComments (cs : List Char) : Prop :=
  ∀ before body behind, cs = before ++ '#' :: (body ++ '\r' :: behind) → '\n' ∉ body →
    behind = [] ∨ behind.head? = some '\n'

theorem ReturnsEndLines.comments {cs ds : List Char} (h : ReturnsEndLines (cs ++ ds)) :
    ReturnsEndComments cs := by
  rintro before body behind rfl -
  cases behind with
  | nil => exact .inl rfl
  | cons c behind => exact .inr (h (before ++ '#' :: body) (c :: (behind ++ ds)) (by simp))

theorem ReturnsEndComments.of_append {before cs : List Char}
    (h : ReturnsEndComments (before ++ cs)) : ReturnsEndComments cs :=
  fun left body behind hsplit =>
    h (before ++ left) body behind (by rw [hsplit, List.append_assoc])

/-- So a comment ends with its carriage return. -/
theorem ReturnsEndComments.body_ends {body cs : List Char}
    (h : ReturnsEndComments ('#' :: (body ++ cs))) (hfeed : '\n' ∉ body) :
    ∀ front back, body = front ++ '\r' :: back → back = [] := by
  rintro front back rfl
  simp only [List.mem_append, List.mem_cons, not_or] at hfeed
  rcases h [] front (back ++ cs) (by simp) hfeed.1 with hnil | hhead
  · exact (List.append_eq_nil_iff.mp hnil).1
  · cases back with
    | nil => rfl
    | cons y back =>
      cases hhead
      simp at hfeed

/-- A text has a last line feed or none. -/
theorem exists_last_line (cs : List Char) :
    (∃ before line, cs = before ++ '\n' :: line ∧ '\n' ∉ line) ∨ '\n' ∉ cs := by
  induction cs with
  | nil => exact .inr (by simp)
  | cons c cs ih =>
    rcases ih with ⟨before, line, rfl, hline⟩ | hcs
    · exact .inl ⟨c :: before, line, rfl, hline⟩
    · by_cases hc : c = '\n'
      · exact .inl ⟨[], cs, by rw [hc]; rfl, hcs⟩
      · exact .inr (by simp [Ne.symm hc, hcs])

/-- No carriage return stands before a place on its line. -/
def LineIsClear (source : List Char) (start : Nat) : Prop :=
  ∀ before line, source.take start = before ++ line → '\n' ∉ line → '\r' ∉ line

/-- The line before a character has no carriage return. -/
theorem ReturnsEndLines.lineIsClear {source front behind : List Char} {c : Char}
    (h : ReturnsEndLines source) (hsource : source = front ++ c :: behind) (hc : c ≠ '\n') :
    LineIsClear source front.length := by
  intro before line hfront hline hmem
  rw [hsource, List.take_left] at hfront
  subst hfront
  obtain ⟨left, right, rfl⟩ := List.append_of_mem hmem
  have hhead := h (before ++ left) (right ++ c :: behind) (by rw [hsource]; simp)
  cases right with
  | nil =>
    simp only [List.nil_append, List.head?_cons, Option.some.injEq] at hhead
    exact hc hhead
  | cons d right =>
    simp only [List.cons_append, List.head?_cons, Option.some.injEq] at hhead
    simp [hhead] at hline

namespace Position

theorem foldl_step_of_line {line : List Char} (hfeed : '\n' ∉ line) (hreturn : '\r' ∉ line)
    (position : Position) :
    line.foldl step position = ⟨position.line, position.column + line.length⟩ := by
  induction line generalizing position with
  | nil => rfl
  | cons c line ih =>
    simp only [List.mem_cons, not_or] at hfeed hreturn
    rw [List.foldl_cons, ih hfeed.2 hreturn.2, step, if_neg (Ne.symm hfeed.1),
      if_neg (Ne.symm hreturn.1), List.length_cons]
    simp only [Nat.add_assoc, Nat.add_comm 1]

theorem line_foldl_step (cs : List Char) (position : Position) :
    (cs.foldl step position).line = position.line + cs.count '\n' := by
  induction cs generalizing position with
  | nil => rfl
  | cons c cs ih =>
    rw [List.foldl_cons, ih, List.count_cons, step]
    by_cases hc : c = '\n'
    · simp only [hc, if_true, beq_self_eq_true]
      omega
    · by_cases hr : c = '\r' <;> simp [hc, hr]

theorem lineStart?_of_feed (before line : List Char) :
    lineStart? (before.count '\n' + 1) (before ++ '\n' :: line) = some (before.length + 1) := by
  induction before with
  | nil => simp [lineStart?]
  | cons c before ih =>
    rw [List.cons_append, lineStart?, List.count_cons]
    by_cases hc : c = '\n'
    · simp [hc, ih]
    · simp [hc, ih]

theorem offset_after {source before behind : List Char} {c : Char}
    (hsource : source = before ++ c :: behind) (h : LineIsClear source before.length) :
    (after source before.length).offset source = before.length := by
  have htake : source.take before.length = before := by rw [hsource, List.take_left]
  have hlength : before.length < source.length := by simp [hsource]
  rw [after, htake]
  rcases exists_last_line before with ⟨lines, line, rfl, hline⟩ | hline
  · have hreturn : '\r' ∉ line :=
      h (lines ++ ['\n']) line (by rw [htake, List.append_assoc]; rfl) hline
    have hfold : (lines ++ '\n' :: line).foldl step {} =
        ⟨lines.count '\n' + 2, 1 + line.length⟩ := by
      rw [List.foldl_append, List.foldl_cons, foldl_step_of_line hline hreturn, step, if_pos rfl,
        line_foldl_step]
      simp only [Position.mk.injEq, and_true]
      omega
    have hstart : lineStart? (lines.count '\n' + 1) source = some (lines.length + 1) := by
      rw [hsource, List.append_assoc, List.cons_append]
      exact lineStart?_of_feed lines (line ++ c :: behind)
    simp only [hfold, offset, Nat.add_sub_cancel_left, Nat.add_one_sub_one, hstart]
    simp only [List.length_append, List.length_cons] at hlength ⊢
    rw [if_pos (by omega)]
    omega
  · have hreturn : '\r' ∉ before := h [] before htake hline
    rw [foldl_step_of_line hline hreturn]
    simp only [offset, lineStart?, Nat.sub_self, Nat.add_sub_cancel_left, Nat.zero_add]
    rw [if_pos hlength]

end Position

/-- A node stands at its place. -/
theorem placeOf_eq {source before behind : List Char} {c : Char}
    (hsource : source = before ++ c :: behind) (h : LineIsClear source before.length) :
    placeOf source before.length = before.length :=
  Position.offset_after hsource h

end Sdl
end EntitySdl
