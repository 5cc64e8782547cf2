import EntitySdl.Proofs.Trimming

/-! # Bytes of a text

The end of a definition is found by counting bytes.  Where its text begins at the start,
these are the bytes of the text, which ends behind its last character.  A definition that
begins with no blank is such a one.  So a document is never cut inside a character, if each
of its definitions is placed where it begins.
-/
namespace EntitySdl
namespace Sdl

open Text

variable {source text front back : List Char} {bytes : Nat}

/-! ### Characters that fit -/

theorem byteLength_cons (c : Char) (cs : List Char) :
    byteLength (c :: cs) = c.utf8Size + byteLength cs := rfl

theorem byteLength_append (front back : List Char) :
    byteLength (front ++ back) = byteLength front + byteLength back := by
  induction front with
  | nil => exact (Nat.zero_add _).symm
  | cons c front ih => rw [List.cons_append, byteLength_cons, byteLength_cons, ih, Nat.add_assoc]

theorem byteLength_le_of_sublist (h : front.Sublist back) : byteLength front ≤ byteLength back := by
  induction h with
  | slnil => exact le_rfl
  | cons c _ ih =>
    rw [byteLength_cons]
    omega
  | cons_cons c _ ih =>
    rw [byteLength_cons, byteLength_cons]
    omega

theorem fitting_le_length (bytes : Nat) (cs : List Char) : fitting bytes cs ≤ cs.length := by
  induction cs generalizing bytes with
  | nil => exact le_rfl
  | cons c cs ih =>
    rw [fitting]
    split
    · exact Nat.succ_le_succ (ih _)
    · exact Nat.zero_le _

/-- So many characters fit as take up no more bytes. -/
theorem le_fitting_iff {count : Nat} {cs : List Char} (h : count ≤ cs.length) :
    count ≤ fitting bytes cs ↔ byteLength (cs.take count) ≤ bytes := by
  induction cs generalizing bytes count with
  | nil =>
    obtain rfl := Nat.le_zero.mp h
    exact iff_of_true (Nat.zero_le _) (Nat.zero_le _)
  | cons c cs ih =>
    cases count with
    | zero => exact iff_of_true (Nat.zero_le _) (Nat.zero_le _)
    | succ count =>
      rw [List.take_succ_cons, byteLength_cons, fitting]
      split
      · have := @ih (bytes - c.utf8Size) count (Nat.le_of_succ_le_succ h)
        omega
      · exact iff_of_false (Nat.not_succ_le_zero _) (by omega)

theorem byteLength_take_fitting_le (bytes : Nat) (cs : List Char) :
    byteLength (cs.take (fitting bytes cs)) ≤ bytes :=
  (le_fitting_iff (fitting_le_length bytes cs)).mp le_rfl

/-- In no bytes, no character fits. -/
theorem fitting_zero (cs : List Char) : fitting 0 cs = 0 := by
  cases cs with
  | nil => rfl
  | cons c cs =>
    rw [fitting, if_neg]
    have := c.utf8Size_pos
    omega

/-- In bytes that a text takes up, no further characters fit. -/
theorem fitting_append (h : bytes ≤ byteLength front) (back : List Char) :
    fitting bytes (front ++ back) = fitting bytes front := by
  induction front generalizing bytes with
  | nil =>
    obtain rfl := Nat.le_zero.mp h
    rw [fitting_zero, fitting_zero]
  | cons c front ih =>
    rw [byteLength_cons] at h
    rw [List.cons_append, fitting, fitting, ih (by omega)]

/-- A text fits into its bytes. -/
theorem fitting_byteLength (text : List Char) : fitting (byteLength text) text = text.length :=
  Nat.le_antisymm (fitting_le_length _ _)
    ((le_fitting_iff le_rfl).mpr (by rw [List.take_length]))

/-! ### Definitions that begin at their start -/

variable {d : PlacedDefinition} {placed : List PlacedDefinition}

/-- A text that stands at the start ends behind its last character. -/
theorem textEnd_of_begins {start : Nat} (h : text <+: source.drop start) :
    textEnd source start text = start + text.length := by
  obtain ⟨behind, hsource⟩ := h
  rw [textEnd, ← hsource, fitting_append le_rfl, fitting_byteLength]

theorem byteLength_slice_textEnd_le (source : List Char) (start : Nat) (text : List Char) :
    byteLength (slice source start (textEnd source start text)) ≤ byteLength text := by
  rw [slice, textEnd, Nat.add_sub_cancel_left]
  exact byteLength_take_fitting_le _ _

theorem isTorn_of_begins (h : text <+: source.drop d.start) : isTorn source d text = false := by
  have hslice : slice source d.start (textEnd source d.start text) = text := by
    obtain ⟨behind, hsource⟩ := h
    rw [textEnd_of_begins ⟨behind, hsource⟩, slice, Nat.add_sub_cancel_left, ← hsource,
      List.take_left]
  simp [isTorn, hslice]

/-- What is kept of a text that begins with no blank stands at its start. -/
theorem trimDefinition_begins (h : ∀ c, text.head? = some c → isBlank c = false) :
    trimDefinition text <+: text := by
  cases text with
  | nil => exact List.prefix_rfl
  | cons c rest =>
    obtain ⟨cut, hcut, -⟩ := @exists_cut c rest (h c rfl)
    exact ⟨cut, hcut.symm⟩

/-- **Definitions that begin with no blank are not torn.** -/
theorem anyTorn_eq_false
    (h : ∀ d ∈ placed, ∀ c, (source.drop d.start).head? = some c → isBlank c = false) :
    anyTorn source placed = false := by
  induction placed with
  | nil => rfl
  | cons d rest ih =>
    obtain ⟨hd, hrest⟩ := List.forall_mem_cons.mp h
    have hslice := List.take_prefix (nextStart source rest - d.start) (source.drop d.start)
    have htext : trimDefinition (slice source d.start (nextStart source rest)) <+:
        source.drop d.start := by
      refine (trimDefinition_begins fun c hc => hd c ?_).trans hslice
      obtain ⟨behind, hbehind⟩ := hslice
      rw [← hbehind, List.head?_append]
      exact Option.or_eq_some_iff.mpr (.inl hc)
    rw [anyTorn, isTorn_of_begins htext, ih hrest]
    rfl

end Sdl
end EntitySdl
