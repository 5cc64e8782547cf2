import EntitySdl.Proofs.Inflections

/-! # Endings that keep words apart

Two endings of one word may make different words of it.  Whether they always do is found
out without the word: what both ask for at each place, and what follows where one of them
adds a text that the other has to keep, is held against the endings that must not fit.
-/
namespace EntitySdl
namespace Name

open Text

/-! ## Words that start in a given way -/

/-- A word begins with a character of each slot in turn. -/
def StartsIn : List (List Char) → List Char → Prop
  | [], _ => True
  | _ :: _, [] => False
  | slot :: slots, c :: cs => c ∈ slot ∧ StartsIn slots cs

section StartsIn

variable {slots known more : List (List Char)} {word : List Char}

theorem startsIn_iff : StartsIn slots word ↔ ∃ text rest, word = text ++ rest ∧
    List.Forall₂ (fun slot c => c ∈ slot) slots text := by
  induction slots generalizing word with
  | nil => simp [StartsIn]
  | cons slot slots ih =>
    cases word with
    | nil => simp [StartsIn, List.forall₂_cons_left_iff]
    | cons c cs =>
      rw [StartsIn, ih]
      constructor
      · rintro ⟨hc, text, rest, rfl, htext⟩
        exact ⟨c :: text, rest, rfl, .cons hc htext⟩
      · rintro ⟨_, rest, hword, htext⟩
        obtain ⟨d, text, hd, hrest, rfl⟩ := List.forall₂_cons_left_iff.mp htext
        obtain ⟨rfl, rfl⟩ := List.cons.inj hword
        exact ⟨hd, text, rest, rfl, hrest⟩

theorem startsIn_append : StartsIn (slots ++ more) word ↔
    StartsIn slots word ∧ StartsIn more (word.drop slots.length) := by
  induction slots generalizing word with
  | nil => simp [StartsIn]
  | cons slot slots ih =>
    cases word with
    | nil => simp [StartsIn]
    | cons c cs => simp [StartsIn, ih, and_assoc]

theorem startsIn_replicate {slot : List Char} (h : ∀ c ∈ word, c ∈ slot) {count : Nat}
    (hcount : count ≤ word.length) : StartsIn (List.replicate count slot) word := by
  induction count generalizing word with
  | zero => trivial
  | succ count ih =>
    cases word with
    | nil => cases hcount
    | cons c cs =>
      obtain ⟨hc, hcs⟩ := List.forall_mem_cons.mp h
      exact ⟨hc, ih hcs (Nat.le_of_succ_le_succ hcount)⟩

theorem startsIn_singletons {text : List Char} (h : text <+: word) :
    StartsIn (text.map ([·])) word := by
  obtain ⟨rest, rfl⟩ := h
  induction text with
  | nil => trivial
  | cons c text ih => exact ⟨List.mem_singleton_self c, ih⟩

/-- What two ways to start have in common. -/
def meet : List (List Char) → List (List Char) → List (List Char)
  | [], slots => slots
  | known, [] => known
  | cs :: known, slot :: slots => cs.filter slot.contains :: meet known slots

theorem startsIn_meet (h : StartsIn known word) (h' : StartsIn slots word) :
    StartsIn (meet known slots) word := by
  fun_induction meet known slots generalizing word with
  | case1 => exact h'
  | case2 => exact h
  | case3 cs known slot slots ih =>
    cases word with
    | nil => cases h
    | cons c rest => exact ⟨List.mem_filter.mpr ⟨h.1, List.contains_iff_mem.mpr h'.1⟩, ih h.2 h'.2⟩

theorem any_isEmpty_of_startsIn (h : StartsIn known word) : known.any List.isEmpty = false := by
  induction known generalizing word with
  | nil => rfl
  | cons cs known ih =>
    cases word with
    | nil => cases h
    | cons c rest =>
      have hcs : cs.isEmpty = false := List.isEmpty_eq_false_iff.mpr (List.ne_nil_of_mem h.1)
      rw [List.any_cons, hcs, ih h.2]
      rfl

/-- Whether words that start in one way start in another, too. -/
def covers : List (List Char) → List (List Char) → Bool
  | _, [] => true
  | [], _ :: _ => false
  | cs :: known, slot :: slots => cs.all slot.contains && covers known slots

theorem startsIn_of_covers (hcovers : covers known slots) (h : StartsIn known word) :
    StartsIn slots word := by
  fun_induction covers known slots generalizing word with
  | case1 => trivial
  | case2 => cases hcovers
  | case3 cs known slot slots ih =>
    rw [Bool.and_eq_true, List.all_eq_true] at hcovers
    cases word with
    | nil => cases h
    | cons c rest =>
      exact ⟨List.contains_iff_mem.mp (hcovers.1 c h.1), ih hcovers.2 h.2⟩

end StartsIn

/-! ## Two endings of one word -/

namespace Ending

variable {e other f : Ending} {word : List Char}

theorem fits_iff : e.Fits word ↔
    StartsIn e.slots word ∧ (e.whole → word.length = e.slots.length) := by
  rw [startsIn_iff]
  constructor
  · rintro ⟨text, rest, rfl, htext, hwhole⟩
    refine ⟨⟨text, rest, rfl, htext⟩, fun h => ?_⟩
    rw [hwhole h, List.append_nil, htext.length_eq]
  · rintro ⟨⟨text, rest, rfl, htext⟩, hwhole⟩
    refine ⟨text, rest, rfl, htext, fun h => ?_⟩
    have hlength := hwhole h
    rw [List.length_append, htext.length_eq] at hlength
    exact List.length_eq_zero_iff.mp (by omega)

/-- How a word starts of which another ending makes the same: behind what is dropped it
has what the other adds beyond this one. -/
def forced (e other : Ending) : List (List Char) :=
  List.replicate e.dropped smallParts ++ (other.added.drop e.added.length).map ([·])

/-- How a word starts that has two endings which make the same of it. -/
def known (e other : Ending) : List (List Char) :=
  meet (meet e.slots other.slots) (meet (e.forced other) (other.forced e))

/-- Whether such a word has another ending, too. -/
def implies (e other f : Ending) : Bool :=
  covers (e.known other) f.slots &&
    (!f.whole || e.whole && e.slots.length == f.slots.length ||
      other.whole && other.slots.length == f.slots.length)

/-- How much longer a word becomes, counted from four characters less. -/
def growth (e : Ending) : Nat := e.added.length + 4 - e.dropped

/-- Whether two choices cannot make the same of one word. -/
def apart (choice other : Ending × List Ending) : Bool :=
  !(choice.1.added.isPrefixOf other.1.added || other.1.added.isPrefixOf choice.1.added) ||
    (choice.1.known other.1).any List.isEmpty ||
      other.2.any (choice.1.implies other.1) || choice.2.any (choice.1.implies other.1)

theorem startsIn_forced (hword : ∀ c ∈ word, c ∈ smallParts) (he : e.dropped ≤ word.length)
    (h : e.added ++ word.drop e.dropped = other.added ++ word.drop other.dropped) :
    StartsIn (e.forced other) word := by
  refine startsIn_append.mpr ⟨startsIn_replicate hword he, startsIn_singletons ?_⟩
  have hdrop := congrArg (List.drop e.added.length) h
  rw [List.drop_left, List.drop_append] at hdrop
  rw [List.length_replicate, hdrop]
  exact List.prefix_append _ _

theorem startsIn_known (hword : ∀ c ∈ word, c ∈ smallParts) (he : e.dropped ≤ word.length)
    (hother : other.dropped ≤ word.length) (hfits : e.Fits word) (hfits' : other.Fits word)
    (h : e.added ++ word.drop e.dropped = other.added ++ word.drop other.dropped) :
    StartsIn (e.known other) word :=
  startsIn_meet (startsIn_meet (fits_iff.mp hfits).1 (fits_iff.mp hfits').1)
    (startsIn_meet (startsIn_forced hword he h) (startsIn_forced hword hother h.symm))

theorem fits_of_implies (hf : e.implies other f) (hknown : StartsIn (e.known other) word)
    (hfits : e.Fits word) (hfits' : other.Fits word) : f.Fits word := by
  simp only [implies, Bool.and_eq_true, Bool.or_eq_true, Bool.not_eq_true', beq_iff_eq] at hf
  obtain ⟨hcovers, hwhole⟩ := hf
  refine fits_iff.mpr ⟨startsIn_of_covers hcovers hknown, fun h => ?_⟩
  rcases hwhole with (hwhole | ⟨hwhole, hlength⟩) | ⟨hwhole, hlength⟩
  · rw [h] at hwhole
    cases hwhole
  · rw [(fits_iff.mp hfits).2 hwhole, hlength]
  · rw [(fits_iff.mp hfits').2 hwhole, hlength]

/-- **Choices that are apart.**  Of a word for which both are made they do not make the same. -/
theorem ne_of_apart {choice other : Ending × List Ending} (h : apart choice other)
    (hword : ∀ c ∈ word, c ∈ smallParts) (hdropped : choice.1.dropped ≤ word.length)
    (hdropped' : other.1.dropped ≤ word.length) (hfits : choice.1.Fits word)
    (hfits' : other.1.Fits word) (hexcluded : ∀ e ∈ choice.2, ¬ e.Fits word)
    (hexcluded' : ∀ e ∈ other.2, ¬ e.Fits word) :
    choice.1.added ++ word.drop choice.1.dropped ≠
      other.1.added ++ word.drop other.1.dropped := by
  intro heq
  -- what the word is known to start with fits none of the excluded endings
  have hknown := startsIn_known hword hdropped hdropped' hfits hfits' heq
  have hprefix := List.prefix_or_prefix_of_prefix (List.prefix_append choice.1.added _)
    (heq ▸ List.prefix_append other.1.added _)
  have himplied : ∀ excluded : List Ending, (∀ e ∈ excluded, ¬ e.Fits word) →
      excluded.any (choice.1.implies other.1) = false := by
    intro excluded hexcluded
    rw [List.any_eq_false]
    exact fun f hf himplies => hexcluded f hf (fits_of_implies himplies hknown hfits hfits')
  rw [apart, any_isEmpty_of_startsIn hknown, himplied _ hexcluded, himplied _ hexcluded',
    Bool.or_false, Bool.or_false, Bool.or_false, Bool.not_eq_true', Bool.or_eq_false_iff] at h
  rcases hprefix with hprefix | hprefix
  · rw [List.isPrefixOf_iff_prefix.mpr hprefix] at h
    cases h.1
  · rw [List.isPrefixOf_iff_prefix.mpr hprefix] at h
    cases h.2

/-- What makes a word equally long grows equally. -/
theorem growth_eq (hdropped : e.dropped ≤ word.length) (hdropped' : other.dropped ≤ word.length)
    (h : e.added ++ word.drop e.dropped = other.added ++ word.drop other.dropped) :
    e.growth = other.growth := by
  have hlength := congrArg List.length h
  simp only [List.length_append, List.length_drop] at hlength
  unfold growth
  omega

end Ending

/-! ## Up to underscores -/

/-- A word without its underscores. -/
def bare (word : List Char) : List Char := word.filter (· != '_')

@[simp] theorem bare_append (word other : List Char) :
    bare (word ++ other) = bare word ++ bare other := List.filter_append ..

theorem bare_eq_self {word : List Char} (h : ∀ c ∈ word, c ≠ '_') : bare word = word :=
  List.filter_eq_self.mpr fun c hc => bne_iff_ne.mpr (h c hc)

/-- The skeleton of a name is the name without underscores. -/
theorem skeleton_eq {cs : List Char} (h : ∀ c ∈ cs, isNamePart c) :
    skeleton cs = (bare (backwards cs)).reverse := by
  have hlower : ∀ c ∈ cs, (c.toLower != '_') = isAlphanumeric c := fun c hc => by
    rw [← isAlphanumeric_of_isNamePart (isNamePart_toLower (h c hc)),
      isAlphanumeric_toLower (h c hc)]
  rw [bare, backwards, List.filter_reverse, List.reverse_reverse, List.filter_map, skeleton]
  exact congrArg _ (List.filter_congr fun c hc => (hlower c hc).symm)

/-- Where neither the dropped characters nor the added ones are underscores, two endings make
the same of a word as soon as they do up to underscores. -/
theorem eq_of_bare_eq {word added added' : List Char} {dropped dropped' : Nat}
    (hle : dropped ≤ dropped') (hdropped : ∀ c ∈ word.take dropped', c ≠ '_')
    (hadded : ∀ c ∈ added, c ≠ '_') (hadded' : ∀ c ∈ added', c ≠ '_')
    (h : bare (added ++ word.drop dropped) = bare (added' ++ word.drop dropped')) :
    added ++ word.drop dropped = added' ++ word.drop dropped' := by
  obtain ⟨count, rfl⟩ := Nat.exists_eq_add_of_le hle
  have hsplit : word.drop dropped =
      (word.drop dropped).take count ++ word.drop (dropped + count) := by
    rw [← List.drop_drop, List.take_append_drop]
  have hmiddle : ∀ c ∈ (word.drop dropped).take count, c ≠ '_' := fun c hc =>
    hdropped c (by rw [List.take_add]; exact List.mem_append_right _ hc)
  rw [hsplit] at h ⊢
  simp only [bare_append, bare_eq_self hadded, bare_eq_self hadded', bare_eq_self hmiddle,
    ← List.append_assoc, List.append_left_inj] at h ⊢
  exact h

end Name
end EntitySdl
