import EntitySdl.Sdl.Peg

/-! # Places, blanks and comments

One place in a text is behind another when the text between them has been passed
over.  Passing over blanks and comments ends at a character that is neither, and
there it ends at once.
-/
namespace EntitySdl
namespace Sdl
namespace Cursor

/-- The second place is the first one, or behind it in the same text. -/
def Reaches (c d : Cursor) : Prop :=
  ∃ text, c.rest = text ++ d.rest ∧ d.offset = c.offset + text.length

theorem Reaches.refl (c : Cursor) : c.Reaches c := ⟨[], by simp⟩

theorem Reaches.trans {c d e : Cursor} (h : c.Reaches d) (h' : d.Reaches e) : c.Reaches e := by
  obtain ⟨text, hrest, hoffset⟩ := h
  obtain ⟨more, hrest', hoffset'⟩ := h'
  refine ⟨text ++ more, ?_, ?_⟩
  · rw [hrest, hrest', List.append_assoc]
  · rw [hoffset', hoffset, List.length_append]
    omega

theorem Reaches.length_le {c d : Cursor} (h : c.Reaches d) : d.rest.length ≤ c.rest.length := by
  obtain ⟨text, hrest, -⟩ := h
  rw [hrest, List.length_append]
  omega

/-- The number of characters before a place and behind it stays the same. -/
theorem Reaches.offset_add {c d : Cursor} (h : c.Reaches d) :
    d.offset + d.rest.length = c.offset + c.rest.length := by
  obtain ⟨text, hrest, hoffset⟩ := h
  rw [hrest, hoffset, List.length_append]
  omega

theorem Reaches.suffix {c d : Cursor} (h : c.Reaches d) : d.rest <:+ c.rest := by
  obtain ⟨text, hrest, -⟩ := h
  exact ⟨text, hrest.symm⟩

theorem Reaches.textTo_eq {c d : Cursor} (h : c.Reaches d) {text : List Char}
    (hrest : c.rest = text ++ d.rest) : c.textTo d = text := by
  obtain ⟨text', hrest', hoffset⟩ := h
  obtain rfl := List.append_cancel_right (hrest.symm.trans hrest')
  rw [textTo, hrest, hoffset, Nat.add_sub_cancel_left, List.take_left]

/-- Places of one text with as much text behind them are the same. -/
theorem Reaches.eq_of_length {c d d' : Cursor} (h : c.Reaches d) (h' : c.Reaches d')
    (hlength : d.rest.length = d'.rest.length) : d = d' := by
  have hrest : d.rest = d'.rest := List.suffix_of_suffix_length_le h.suffix h'.suffix
    (Nat.le_of_eq hlength) |>.eq_of_length hlength
  have hoffset : d.offset = d'.offset := by
    have := h.offset_add
    have := h'.offset_add
    omega
  cases d
  cases d'
  simp_all

theorem Reaches.eq_of_offset {c d : Cursor} (h : c.Reaches d) (hoffset : c.offset = d.offset) :
    c = d := by
  have := h.offset_add
  exact Reaches.eq_of_length (Reaches.refl c) h (by omega)

theorem Reaches.of_append {c : Cursor} {text rest : List Char} (h : c.rest = text ++ rest) :
    c.Reaches ⟨c.offset + text.length, rest⟩ := ⟨text, h, rfl⟩

theorem behindIgnored_reaches (inComment : Bool) (offset : Nat) (cs : List Char) :
    Reaches ⟨offset, cs⟩ (behindIgnored inComment offset cs) := by
  fun_induction behindIgnored inComment offset cs with
  | case1 => exact Reaches.refl _
  | case2 offset c cs ih => exact (@Reaches.of_append _ [c] _ rfl).trans ih
  | case3 offset c cs h ih => exact (@Reaches.of_append _ [c] _ rfl).trans ih
  | case4 offset c cs h h' ih => exact (@Reaches.of_append _ [c] _ rfl).trans ih
  | case5 => exact Reaches.refl _

theorem skip_reaches (c : Cursor) (mode : Mode) : c.Reaches (c.skip mode) := by
  cases mode with
  | spaced => exact behindIgnored_reaches false c.offset c.rest
  | tight => exact Reaches.refl _
  | token => exact Reaches.refl _

/-- Whether a text begins with neither a blank nor a comment. -/
def isSolidStart : List Char → Bool
  | [] => true
  | c :: _ => !isSeparator c && c != '#'

theorem behindIgnored_isSolidStart (inComment : Bool) (offset : Nat) (cs : List Char) :
    isSolidStart (behindIgnored inComment offset cs).rest := by
  fun_induction behindIgnored inComment offset cs with
  | case1 => rfl
  | case2 offset c cs ih => exact ih
  | case3 offset c cs h ih => exact ih
  | case4 offset c cs h h' ih => exact ih
  | case5 offset c cs h h' => simp_all [isSolidStart]

/-- What is behind blanks and comments does not depend on where they stand. -/
theorem behindIgnored_rest (inComment : Bool) (offset offset' : Nat) (cs : List Char) :
    (behindIgnored inComment offset cs).rest = (behindIgnored inComment offset' cs).rest := by
  fun_induction behindIgnored inComment offset cs generalizing offset' with
  | case1 => rfl
  | case2 offset c cs ih =>
    rw [behindIgnored]
    exact ih _
  | case3 offset c cs h ih =>
    rw [behindIgnored, if_pos h]
    exact ih _
  | case4 offset c cs h h' ih =>
    rw [behindIgnored, if_neg h, if_pos h']
    exact ih _
  | case5 offset c cs h h' =>
    rw [behindIgnored, if_neg h, if_neg h']

theorem skip_eq_self_iff {c : Cursor} : c.skip .spaced = c ↔ isSolidStart c.rest := by
  constructor
  · intro h
    rw [← h]
    exact behindIgnored_isSolidStart false c.offset c.rest
  · intro h
    obtain ⟨offset, cs⟩ := c
    cases cs with
    | nil => rfl
    | cons x cs =>
      simp only [isSolidStart, Bool.and_eq_true, Bool.not_eq_true', bne_iff_ne] at h
      simp [skip, behindIgnored, h]

/-- What is passed over does not depend on the place. -/
theorem skip_rest (c : Cursor) (offset : Nat) :
    (c.skip .spaced).rest = (behindIgnored false offset c.rest).rest :=
  behindIgnored_rest false c.offset offset c.rest

@[simp] theorem skip_skip (c : Cursor) : (c.skip .spaced).skip .spaced = c.skip .spaced :=
  skip_eq_self_iff.mpr (behindIgnored_isSolidStart false c.offset c.rest)

end Cursor
end Sdl
end EntitySdl
