import EntitySdl.Generate.Generator
import EntitySdl.Proofs.GeneratedSdl
import EntitySdl.Proofs.Inflections

/-! # Which derived names are names

The names of queries and inputs are put into camel case or Pascal case, which drops
underscores.  They are names again unless a digit comes to the front or nothing is left.
What comes to the front is decided by the first character of the name that is no
underscore: an ending drops letters only, and where it drops the last of them it adds
others, except for a singular that is made by dropping a lone `s`.
-/
namespace EntitySdl
namespace Name

open Text

/-! ## What comes to the front -/

/-- The first character of a name that is no underscore. -/
def lead? (name : String) : Option Char := name.toList.find? (· != '_')

/-- The same of a word that is read from its end. -/
def front (word : List Char) : Option Char := (word.filter (· != '_')).getLast?

theorem front_append (word other : List Char) :
    front (word ++ other) = (front other).or (front word) := by
  rw [front, List.filter_append, List.getLast?_append]
  rfl

theorem front_eq_none_iff {word : List Char} : front word = none ↔ ∀ c ∈ word, c = '_' := by
  simp [front]

theorem mem_of_front {word : List Char} {c : Char} (h : front word = some c) :
    c ∈ word ∧ c ≠ '_' := by
  simpa using List.mem_filter.mp (List.mem_of_getLast? h)

section NameParts

variable {name : String}

theorem toLower_bne_underscore {c : Char} (h : isNamePart c) :
    (c.toLower != '_') = (c != '_') := by
  simpa using @Sdl.forall_isNamePart
    (fun c => (c.toLower != '_') == (c != '_')) (by decide) c h

theorem isAsciiLetter_toLower {c : Char} (h : isNamePart c) :
    isAsciiLetter c.toLower = isAsciiLetter c := by
  simpa using @Sdl.forall_isNamePart
    (fun c => isAsciiLetter c.toLower == isAsciiLetter c) (by decide) c h

theorem isAsciiDigit_toLower {c : Char} (h : isNamePart c) :
    isAsciiDigit c.toLower = isAsciiDigit c := by
  simpa using @Sdl.forall_isNamePart
    (fun c => isAsciiDigit c.toLower == isAsciiDigit c) (by decide) c h

/-- A character of a name is an underscore, a letter or a digit. -/
theorem isAsciiLetter_eq_not_digit {c : Char} (h : isNamePart c) (hc : c ≠ '_') :
    isAsciiLetter c = !isAsciiDigit c := by
  simpa [hc] using @Sdl.forall_isNamePart
    (fun c => c == '_' || isAsciiLetter c == !isAsciiDigit c) (by decide) c h

theorem front_backwards (h : ∀ c ∈ name.toList, isNamePart c) :
    front (backwards name.toList) = (lead? name).map Char.toLower := by
  rw [front, backwards, List.filter_reverse, List.getLast?_reverse, List.filter_map,
    List.head?_map, lead?, ← List.head?_filter]
  congr 2
  exact List.filter_congr fun c hc => toLower_bne_underscore (h c hc)

theorem head?_skeleton (h : ∀ c ∈ name.toList, isNamePart c) :
    (skeleton name.toList).head? = front (backwards name.toList) := by
  rw [front_backwards h, skeleton, List.head?_map, lead?, ← List.head?_filter]
  congr 2
  exact List.filter_congr fun c hc => isAlphanumeric_of_isNamePart (h c hc)

/-- Letters and digits are a name when a letter comes first. -/
theorem isIdentifier_eq_of_alphanumeric
    (h : ∀ c ∈ name.toList, isNamePart c ∧ isAlphanumeric c) :
    isIdentifier name = (name.toList.map Char.toLower).head?.any isAsciiLetter := by
  rw [isIdentifier]
  cases hname : name.toList with
  | nil => rfl
  | cons c cs =>
    rw [hname] at h
    obtain ⟨⟨hc, halnum⟩, hcs⟩ := List.forall_mem_cons.mp h
    rw [isAlphanumeric_of_isNamePart hc, bne_iff_ne] at halnum
    have hrest : cs.all isNamePart := List.all_eq_true.mpr fun c hc => (hcs c hc).1
    simp [isIdentifierText, isNameStart, halnum, hrest, isAsciiLetter_toLower hc]

/-- In front of a name they are one when no digit comes first. -/
theorem isIdentifier_append_eq {other : String} (hother : isIdentifier other)
    (h : ∀ c ∈ name.toList, isNamePart c ∧ isAlphanumeric c) :
    isIdentifier (name ++ other) = !(name.toList.map Char.toLower).head?.any isAsciiDigit := by
  rw [isIdentifier, String.toList_append]
  cases hname : name.toList with
  | nil => exact hother
  | cons c cs =>
    rw [hname] at h
    obtain ⟨⟨hc, halnum⟩, hcs⟩ := List.forall_mem_cons.mp h
    rw [isAlphanumeric_of_isNamePart hc, bne_iff_ne] at halnum
    have hrest : (cs ++ other.toList).all isNamePart := by
      rw [List.all_append, Bool.and_eq_true, List.all_eq_true, List.all_eq_true]
      exact ⟨fun c hc => (hcs c hc).1, isNamePart_of_mem hother⟩
    simp [isIdentifierText, isNameStart, halnum, isAsciiDigit_toLower hc,
      isAsciiLetter_eq_not_digit hc halnum, hrest]

section

variable (h : ∀ c ∈ name.toList, isNamePart c)

include h

theorem isIdentifier_camel :
    isIdentifier (camel name) = (front (backwards name.toList)).any isAsciiLetter := by
  rw [isIdentifier_eq_of_alphanumeric (camel_isAlphanumeric h), small_camel h, head?_skeleton h]

theorem isIdentifier_camel_append {other : String} (hother : isIdentifier other) :
    isIdentifier (camel name ++ other) = !(front (backwards name.toList)).any isAsciiDigit := by
  rw [isIdentifier_append_eq hother (camel_isAlphanumeric h), small_camel h, head?_skeleton h]

theorem isIdentifier_pascal_append {other : String} (hother : isIdentifier other) :
    isIdentifier (pascal name ++ other) = !(front (backwards name.toList)).any isAsciiDigit := by
  rw [isIdentifier_append_eq hother (pascal_isAlphanumeric h), small_pascal h, head?_skeleton h]

end

end NameParts

/-! ## What the endings bring to the front -/

namespace Ending

/-- What is added begins with a letter. -/
def addsLetter (e : Ending) : Bool := e.added.getLast?.any isAsciiLetter

/-- Something that is no underscore is kept. -/
def keepsSign (e : Ending) : Bool := (e.slots.drop e.dropped).any fun slot => !slot.contains '_'

variable {e : Ending} {kept rest : List Char}

theorem front_of_addsLetter (he : e.addsLetter) :
    ∃ c, front e.added = some c ∧ isAsciiLetter c := by
  obtain ⟨c, hlast, hletter⟩ := (Option.any_eq_true _ _).mp he
  refine ⟨c, ?_, hletter⟩
  obtain ⟨before, hadded⟩ := List.getLast?_eq_some_iff.mp hlast
  have hc : (c != '_') = true := by
    rw [bne_iff_ne]
    rintro rfl
    cases hletter
  rw [hadded, front_append, front, List.filter_singleton, hc]
  rfl

theorem front_ne_none_of_keepsSign (he : e.keepsSign)
    (hkept : List.Forall₂ (fun slot c => c ∈ slot) (e.slots.drop e.dropped) kept) :
    front (kept ++ rest) ≠ none := by
  intro hnone
  obtain ⟨slot, hslot, hunderscore⟩ := List.any_eq_true.mp he
  obtain ⟨c, hc, hmem⟩ := exists_mem_of_forall₂ hkept hslot
  rw [front_eq_none_iff.mp hnone c (List.mem_append_left _ hc)] at hmem
  simp [hmem] at hunderscore

end Ending

/-- A word, read from its end, that is an `s` behind underscores. -/
def isLoneS : List Char → Bool
  | 's' :: rest => (front rest).isNone
  | _ => false

theorem isLoneS_iff {word : List Char} :
    isLoneS word ↔ ∃ rest, word = 's' :: rest ∧ front rest = none := by
  unfold isLoneS
  split
  · simp
  · rename_i hword
    simp only [Bool.false_eq_true, false_iff, not_exists, not_and]
    exact fun rest h => absurd h (hword rest)

/-- An ending that such a word does not have. -/
def Ending.avoidsLoneS (e : Ending) : Bool :=
  match e.slots with
  | first :: second :: _ => !first.contains 's' || !second.contains '_'
  | [slot] => !slot.contains 's'
  | [] => false

theorem Ending.isLoneS_eq_false {e : Ending} (he : e.avoidsLoneS) {word : List Char}
    (h : e.Fits word) : isLoneS word = false := by
  rw [Bool.eq_false_iff]
  intro hlone
  obtain ⟨rest, rfl, hrest⟩ := isLoneS_iff.mp hlone
  obtain ⟨text, behind, hword, hfits, -⟩ := h
  unfold avoidsLoneS at he
  split at he
  · rename_i first second slots hslots
    rw [hslots] at hfits
    obtain ⟨c, cs, hc, hcs, rfl⟩ := List.forall₂_cons_left_iff.mp hfits
    obtain ⟨d, ds, hd, -, rfl⟩ := List.forall₂_cons_left_iff.mp hcs
    obtain ⟨rfl, rfl⟩ := List.cons.inj hword
    rw [front_eq_none_iff.mp hrest d List.mem_cons_self] at hd
    simp [hc, hd] at he
  · rename_i slot hslots
    rw [hslots] at hfits
    obtain ⟨c, cs, hc, -, rfl⟩ := List.forall₂_cons_left_iff.mp hfits
    obtain ⟨rfl, -⟩ := List.cons.inj hword
    simp [hc] at he
  · cases he

/-! ## The front of a plural -/

/-- What the front of a plural is to that of the word. -/
def Fronts (many word : List Char) : Prop :=
  front many = front word ∨
    (front many).any isAsciiLetter ∧ (front word).any isAsciiDigit = false

theorem not_digit_of_letter {c : Char} (h : isAsciiLetter c) : isAsciiDigit c = false := by
  have hpart : isNamePart c := by rw [isNamePart, isNameStart, h, Bool.or_true, Bool.true_or]
  have hc : c ≠ '_' := by
    rintro rfl
    cases h
  rw [isAsciiLetter_eq_not_digit hpart hc] at h
  simpa using h

theorem any_digit_of_letters {word : List Char} (h : ∀ c ∈ word, isAsciiLetter c) :
    (front word).any isAsciiDigit = false := by
  cases hfront : front word with
  | none => rfl
  | some c => exact not_digit_of_letter (h c (mem_of_front hfront).1)

section Numbers

variable {word many one : String}

theorem backwards_isNamePart (h : ∀ c ∈ word.toList, isNamePart c) :
    ∀ c ∈ backwards word.toList, isNamePart c := by
  intro c hc
  obtain ⟨c, hmem, rfl⟩ := List.mem_map.mp (List.mem_reverse.mp hc)
  exact isNamePart_toLower (h c hmem)

/-- Every choice for a plural drops letters only, and adds some or keeps what it finds. -/
theorem pluralChoices_front : ∀ choice ∈ pluralChoices, choice.1.dropsLetters &&
    (choice.1.addsLetter ||
      choice.1.dropped == 0 && choice.1.added.isEmpty && choice.1.keepsSign) := by
  decide +kernel

theorem fronts_of_chooses (hword : ∀ c ∈ word.toList, isNamePart c)
    (h : Chooses pluralChoices word many) :
    Fronts (backwards many.toList) (backwards word.toList) ∧
      front (backwards many.toList) ≠ none := by
  obtain ⟨choice, hchoice, hturns, -⟩ := h
  have hcheck := pluralChoices_front choice hchoice
  rw [Bool.and_eq_true, Bool.or_eq_true] at hcheck
  obtain ⟨hdrops, hcheck⟩ := hcheck
  obtain ⟨cut, kept, rest, hword, hmany, -, hcut, hkept⟩ := hturns.exists_rest hword
  rw [hword, hmany, Fronts, front_append cut, front_append choice.1.added]
  cases hfront : front (kept ++ rest) with
  | some c => simp
  | none =>
    rcases hcheck with hadds | hkeeps
    · obtain ⟨c, hc, hletter⟩ := Ending.front_of_addsLetter hadds
      have hcut := any_digit_of_letters (Ending.isAsciiLetter_of_dropsLetters hdrops hcut)
      simp [hc, hletter, hcut]
    · rw [Bool.and_eq_true] at hkeeps
      exact absurd hfront (Ending.front_ne_none_of_keepsSign hkeeps.2 hkept)

/-- Both sides of an irregular pair begin with a letter, and neither is a lone `s`. -/
theorem irregularPairs_front : ∀ pair ∈ irregularPairs, ∀ side ∈ [pair.1, pair.2],
    (front (backwards side.toList)).any isAsciiLetter &&
      !isLoneS (backwards side.toList) := by
  decide +kernel

theorem any_digit_of_any_letter {found : Option Char} (h : found.any isAsciiLetter) :
    found.any isAsciiDigit = false := by
  obtain ⟨c, rfl, hletter⟩ := (Option.any_eq_true _ _).mp h
  exact not_digit_of_letter hletter

theorem irregular_front {pair : String × String} (hpair : pair ∈ irregularPairs)
    (h : Recases word pair.1 ∨ Recases word pair.2) :
    (front (backwards word.toList)).any isAsciiLetter ∧ isLoneS (backwards word.toList) = false := by
  have hsides := irregularPairs_front pair hpair
  simp only [List.forall_mem_cons, Bool.and_eq_true, Bool.not_eq_true'] at hsides
  rcases h with h | h
  · rw [h.backwards_eq]
    exact hsides.1
  · rw [h.backwards_eq]
    exact hsides.2.1

theorem Numbers.fronts (hword : ∀ c ∈ word.toList, Name.isNamePart c) (h : Numbers word many one) :
    Fronts (backwards many.toList) (backwards word.toList) ∧
      (many ≠ one → front (backwards many.toList) ≠ none) := by
  cases h with
  | alike h => exact ⟨.inl (by rw [h.backwards_eq]), fun hne => absurd rfl hne⟩
  | irregular hpair _ hmany _ hside =>
    have hletter := (irregular_front hpair (.inr hmany)).1
    refine ⟨.inr ⟨hletter, any_digit_of_any_letter (irregular_front hpair hside).1⟩, fun _ hnone => ?_⟩
    rw [hnone] at hletter
    cases hletter
  | regular hmany _ =>
    obtain ⟨hfronts, hne⟩ := fronts_of_chooses hword hmany
    exact ⟨hfronts, fun _ => hne⟩

theorem any_letter_of_fronts (hword : ∀ c ∈ word.toList, isNamePart c) {text : List Char}
    (h : Fronts text (backwards word.toList)) (hne : front text ≠ none) :
    (front text).any isAsciiLetter = !(front (backwards word.toList)).any isAsciiDigit := by
  rcases h with h | ⟨hletter, hdigit⟩
  · rw [h] at hne ⊢
    obtain ⟨c, hc⟩ := Option.ne_none_iff_exists'.mp hne
    obtain ⟨hmem, hunderscore⟩ := mem_of_front hc
    rw [hc]
    exact isAsciiLetter_eq_not_digit (backwards_isNamePart hword c hmem) hunderscore
  · rw [hletter, hdigit]
    rfl

theorem any_digit_of_fronts {text other : List Char} (h : Fronts text other) :
    (front text).any isAsciiDigit = (front other).any isAsciiDigit := by
  rcases h with h | ⟨hletter, hdigit⟩
  · rw [h]
  · rw [any_digit_of_any_letter hletter, hdigit]

/-- Another `s` comes to the front of nothing but underscores. -/
theorem fronts_append_s (h : Fronts (backwards many.toList) (backwards word.toList)) :
    Fronts (backwards (many ++ "s").toList) (backwards word.toList) ∧
      front (backwards (many ++ "s").toList) ≠ none := by
  have hfront : front (backwards (many ++ "s").toList) =
      (front (backwards many.toList)).or (some 's') := by
    rw [String.toList_append, backwards_append, front_append]
    rfl
  rw [Fronts, hfront] at *
  cases hmany : front (backwards many.toList) with
  | some c =>
    rw [hmany] at h
    exact ⟨h, by simp⟩
  | none =>
    rw [hmany] at h
    rcases h with h | ⟨hletter, -⟩
    · rw [← h]
      exact ⟨.inr ⟨rfl, rfl⟩, by simp⟩
    · cases hletter

theorem pluralName_fronts (h : isIdentifier word) :
    Fronts (backwards (Generate.Naming.pluralName word).toList) (backwards word.toList) ∧
      front (backwards (Generate.Naming.pluralName word).toList) ≠ none := by
  obtain ⟨hfronts, hne⟩ := (numbers h).fronts (isNamePart_of_mem h)
  unfold Generate.Naming.pluralName
  dsimp only
  split
  · exact fronts_append_s hfronts
  · rename_i hdiffer
    exact ⟨hfronts, hne hdiffer⟩

theorem pluralName_isNamePart (h : isIdentifier word) :
    ∀ c ∈ (Generate.Naming.pluralName word).toList, isNamePart c := by
  have hmany := ((numbers h).isNamePart (isNamePart_of_mem h)).1
  unfold Generate.Naming.pluralName
  dsimp only
  split
  · rw [String.toList_append, List.forall_mem_append]
    exact ⟨hmany, by decide⟩
  · exact hmany

/-! ## The front of a singular -/

/-- The ending in `s`, which is dropped. -/
def Ending.droppedS : Ending := ⟨false, [['s']], 1, []⟩

/-- Every other choice for a singular leaves a lone `s` alone, drops letters only, and adds
a letter for them or keeps something before them. -/
theorem singularChoices_front : ∀ choice ∈ singularChoices, choice.1 ≠ .droppedS →
    (choice.1.avoidsLoneS || choice.2.contains .droppedS) && choice.1.dropsLetters &&
      (choice.1.addsLetter && !(choice.1.slots.take choice.1.dropped).isEmpty ||
        choice.1.added.isEmpty && (choice.1.dropped == 0 || choice.1.keepsSign)) := by
  decide +kernel

/-- What the front of a singular is to that of the word: a lone `s` leaves nothing, and
otherwise both begin alike or with letters. -/
def FrontsOne (one word : List Char) : Prop :=
  isLoneS word ∧ front one = none ∨
    isLoneS word = false ∧ (front one = front word ∨
      (front one).any isAsciiLetter ∧ (front word).any isAsciiLetter)

theorem frontsOne_droppedS (rest : List Char) : FrontsOne rest ('s' :: rest) := by
  cases hfront : front rest with
  | none => exact .inl ⟨isLoneS_iff.mpr ⟨rest, rfl, hfront⟩, hfront⟩
  | some c =>
    have hword : front ('s' :: rest) = some c := by
      rw [← List.singleton_append, front_append, hfront]
      rfl
    refine .inr ⟨?_, .inl (hfront.trans hword.symm)⟩
    change (front rest).isNone = false
    rw [hfront]
    rfl

theorem any_letter_of_letters {word : List Char} (h : ∀ c ∈ word, isAsciiLetter c)
    (hne : word ≠ []) : (front word).any isAsciiLetter := by
  cases hfront : front word with
  | some c => exact h c (mem_of_front hfront).1
  | none =>
    obtain ⟨c, cs, rfl⟩ := List.exists_cons_of_ne_nil hne
    have hletter := h c List.mem_cons_self
    rw [front_eq_none_iff.mp hfront c List.mem_cons_self] at hletter
    cases hletter

/-- A choice that does not fit a lone `s`, or is made only where the ending `s` does not fit. -/
theorem isLoneS_eq_false_of_choice {choice : Ending × List Ending} {word : List Char}
    (h : choice.1.avoidsLoneS ∨ Ending.droppedS ∈ choice.2) (hfits : choice.1.Fits word)
    (hexcluded : ∀ e ∈ choice.2, ¬ e.Fits word) : isLoneS word = false := by
  rcases h with havoids | hmem
  · exact Ending.isLoneS_eq_false havoids hfits
  · rw [Bool.eq_false_iff]
    intro hlone
    obtain ⟨rest, rfl, -⟩ := isLoneS_iff.mp hlone
    exact hexcluded _ hmem
      ⟨['s'], rest, rfl, .cons (List.mem_singleton_self _) .nil, fun h => by cases h⟩

theorem frontsOne_of_chooses (hword : ∀ c ∈ word.toList, isNamePart c)
    (h : Chooses singularChoices word one) :
    FrontsOne (backwards one.toList) (backwards word.toList) := by
  obtain ⟨choice, hchoice, hturns, hexcluded⟩ := h
  have hfits := hturns.fits
  obtain ⟨cut, kept, rest, hword, hone, -, hcut, hkept⟩ := hturns.exists_rest hword
  by_cases hdropped : choice.1 = .droppedS
  · rw [hdropped] at hone hcut
    obtain ⟨c, _, hc, hnil, rfl⟩ := List.forall₂_cons_left_iff.mp hcut
    cases hnil
    cases List.mem_singleton.mp hc
    rw [hword, hone]
    exact frontsOne_droppedS _
  · have hcheck := singularChoices_front choice hchoice hdropped
    simp only [Bool.and_eq_true, Bool.or_eq_true, List.contains_iff_mem, Bool.not_eq_true']
      at hcheck
    obtain ⟨⟨halone, hdrops⟩, hcheck⟩ := hcheck
    refine .inr ⟨isLoneS_eq_false_of_choice halone hfits hexcluded, ?_⟩
    rw [hword, hone, front_append cut, front_append choice.1.added]
    cases hfront : front (kept ++ rest) with
    | some c => exact .inl rfl
    | none =>
      -- nothing but underscores is kept, so a letter stands for the letters that are dropped
      rcases hcheck with ⟨hadds, hcuts⟩ | ⟨hadded, hkeeps⟩
      · obtain ⟨c, hc, hletter⟩ := Ending.front_of_addsLetter hadds
        have hne : cut ≠ [] := by
          rintro rfl
          rw [List.forall₂_nil_right_iff.mp hcut] at hcuts
          cases hcuts
        exact .inr ⟨by rw [hc]; exact hletter, any_letter_of_letters
          (Ending.isAsciiLetter_of_dropsLetters hdrops hcut) hne⟩
      · rw [List.isEmpty_iff] at hadded
        rcases hkeeps with hnothing | hkeeps
        · rw [beq_iff_eq] at hnothing
          rw [hnothing] at hcut
          cases hcut
          rw [hadded]
          exact .inl rfl
        · exact absurd hfront (Ending.front_ne_none_of_keepsSign hkeeps hkept)

/-- No word of one form is a lone `s`. -/
theorem isLoneS_of_hasOneForm (h : HasOneForm word) : isLoneS (backwards word.toList) = false := by
  rcases h with ⟨listed, hmem, hrecases⟩ | ⟨e, he, hfits⟩
  · have hlisted : ∀ listed ∈ uncountableWords ++ irregularPairs.map Prod.fst,
        isLoneS (backwards listed.toList) = false := by
      decide +kernel
    rw [hrecases.backwards_eq]
    exact hlisted listed hmem
  · have havoids : ∀ e ∈ uncountableEndings, e.avoidsLoneS := by
      decide +kernel
    exact Ending.isLoneS_eq_false (havoids e he) hfits

theorem Numbers.frontsOne (hword : ∀ c ∈ word.toList, Name.isNamePart c)
    (h : Numbers word many one) : FrontsOne (backwards one.toList) (backwards word.toList) := by
  cases h with
  | alike h hone => exact .inr ⟨isLoneS_of_hasOneForm hone, .inl (by rw [h.backwards_eq])⟩
  | irregular hpair _ _ hone hside =>
    exact .inr ⟨(irregular_front hpair hside).2,
      .inr ⟨(irregular_front hpair (.inl hone)).1, (irregular_front hpair hside).1⟩⟩
  | regular _ hone => exact frontsOne_of_chooses hword hone

/-- A singular begins with a letter where the word does, unless that is a lone `s`. -/
theorem front_singular_letter (h : isIdentifier word) :
    (front (backwards (singular word).toList)).any isAsciiLetter =
      ((front (backwards word.toList)).any isAsciiLetter && !isLoneS (backwards word.toList)) := by
  rcases (numbers h).frontsOne (isNamePart_of_mem h) with ⟨hlone, hone⟩ | ⟨hlone, hone | hone⟩
  · rw [hone, hlone, Bool.not_true, Bool.and_false]
    rfl
  · rw [hone, hlone, Bool.not_false, Bool.and_true]
  · rw [hone.1, hone.2, hlone]
    rfl

/-- It begins with a digit where the word does. -/
theorem front_singular_digit (h : isIdentifier word) :
    (front (backwards (singular word).toList)).any isAsciiDigit =
      (front (backwards word.toList)).any isAsciiDigit := by
  rcases (numbers h).frontsOne (isNamePart_of_mem h) with ⟨hlone, hone⟩ | ⟨-, hone | hone⟩
  · obtain ⟨rest, hword, hrest⟩ := isLoneS_iff.mp hlone
    rw [hone, hword, ← List.singleton_append, front_append, hrest]
    rfl
  · rw [hone]
  · rw [any_digit_of_any_letter hone.1, any_digit_of_any_letter hone.2]

end Numbers

/-! ## Names that are derived -/

/-- Whether a letter is the first character that is no underscore. -/
def beginsWithLetter (name : String) : Bool := (lead? name).any isAsciiLetter

/-- Whether a digit is the first character that is no underscore. -/
def beginsWithDigit (name : String) : Bool := (lead? name).any isAsciiDigit

/-- A name that is an `s`, small or capital, behind underscores or none. -/
def IsLoneS (name : String) : Prop :=
  ∃ count, ∃ c ∈ ['s', 'S'], name.toList = List.replicate count '_' ++ [c]

section Derived

variable {name : String}

theorem front_any_letter (h : ∀ c ∈ name.toList, isNamePart c) :
    (front (backwards name.toList)).any isAsciiLetter = beginsWithLetter name := by
  rw [front_backwards h, beginsWithLetter, lead?]
  cases hfind : name.toList.find? (· != '_') with
  | none => rfl
  | some c => exact isAsciiLetter_toLower (h c (List.mem_of_find?_eq_some hfind))

theorem front_any_digit (h : ∀ c ∈ name.toList, isNamePart c) :
    (front (backwards name.toList)).any isAsciiDigit = beginsWithDigit name := by
  rw [front_backwards h, beginsWithDigit, lead?]
  cases hfind : name.toList.find? (· != '_') with
  | none => rfl
  | some c => exact isAsciiDigit_toLower (h c (List.mem_of_find?_eq_some hfind))

theorem isLoneS_backwards_iff (h : ∀ c ∈ name.toList, isNamePart c) :
    isLoneS (backwards name.toList) ↔ IsLoneS name := by
  rw [isLoneS_iff]
  constructor
  · rintro ⟨rest, hword, hrest⟩
    obtain ⟨underscores, last, hname, hunderscores, hlast⟩ :=
      List.map_eq_append_iff.mp (List.reverse_eq_cons_iff.mp hword)
    obtain ⟨c, rfl, hc⟩ := List.map_eq_singleton_iff.mp hlast
    rw [hname, List.forall_mem_append, List.forall_mem_singleton] at h
    refine ⟨underscores.length, c, ?_, ?_⟩
    · have hs := @Sdl.forall_isNamePart (fun c => c.toLower != 's' || ['s', 'S'].contains c)
        (by decide) c h.2
      simpa [hc] using hs
    · rw [hname, List.append_left_inj, List.eq_replicate_iff]
      refine ⟨rfl, fun d hd => ?_⟩
      have hmem : d.toLower ∈ rest := by
        rw [← List.mem_reverse, ← hunderscores]
        exact List.mem_map_of_mem hd
      have hlower := toLower_bne_underscore (h.1 d hd)
      rw [front_eq_none_iff.mp hrest _ hmem] at hlower
      simpa using hlower.symm
  · rintro ⟨count, c, hc, hname⟩
    refine ⟨List.replicate count '_', ?_, ?_⟩
    · rw [hname, backwards, List.map_append, List.map_replicate, List.reverse_append,
        List.reverse_replicate]
      rcases List.mem_cons.mp hc with rfl | hc
      · rfl
      · cases List.mem_singleton.mp hc
        rfl
    · rw [front_eq_none_iff]
      exact fun c hc => List.eq_of_mem_replicate hc

end Derived

end Name

namespace Generate

open Name

namespace Naming

variable {model : String}

theorem isIdentifier_collectionQuery (h : isIdentifier model) :
    isIdentifier (collectionQuery model) = !beginsWithDigit model := by
  obtain ⟨hfronts, hne⟩ := pluralName_fronts h
  rw [collectionQuery, isIdentifier_camel (pluralName_isNamePart h),
    any_letter_of_fronts (isNamePart_of_mem h) hfronts hne, front_any_digit (isNamePart_of_mem h)]

theorem isIdentifier_metaQuery (h : isIdentifier model) :
    isIdentifier (metaQuery model) = !beginsWithDigit model := by
  rw [metaQuery, collectionQuery,
    isIdentifier_camel_append (pluralName_isNamePart h) (by decide),
    any_digit_of_fronts (pluralName_fronts h).1, front_any_digit (isNamePart_of_mem h)]

theorem isIdentifier_singleQuery (h : isIdentifier model) :
    isIdentifier (singleQuery model) ↔ beginsWithLetter model ∧ ¬ IsLoneS model := by
  have hparts := isNamePart_of_mem h
  rw [singleQuery, isIdentifier_camel ((numbers h).isNamePart hparts).2, front_singular_letter h,
    front_any_letter hparts, Bool.and_eq_true, Bool.not_eq_true', ← isLoneS_backwards_iff hparts,
    Bool.not_eq_true]

theorem isIdentifier_lookupQuery (h : isIdentifier model) {property : String}
    (hproperty : isIdentifier property) :
    isIdentifier (lookupQuery model property) = !beginsWithDigit model := by
  have hparts := isNamePart_of_mem h
  have hbehind : isIdentifier ("By" ++ pascal property) := isIdentifier_append (by decide)
    fun c hc => (pascal_isAlphanumeric (isNamePart_of_mem hproperty) c hc).1
  rw [lookupQuery, singleQuery, String.append_assoc,
    isIdentifier_camel_append ((numbers h).isNamePart hparts).2 hbehind,
    front_singular_digit h, front_any_digit hparts]

theorem isIdentifier_argsType {operation : String} (h : isIdentifier operation) :
    isIdentifier (argsType operation) = !beginsWithDigit operation := by
  rw [argsType, isIdentifier_pascal_append (isNamePart_of_mem h) (by decide),
    front_any_digit (isNamePart_of_mem h)]

end Naming

namespace Generator

variable {g : Generator} {model : Model}

theorem lookupNames_isIdentifier_iff (h : model.WellFormed)
    (hdigit : beginsWithDigit model.name = false) :
    (∀ name ∈ g.lookupNames model, isIdentifier name) ↔
      (g.identifiers model ≠ [] → g.config.lookup = .uniqueFilter →
        beginsWithLetter model.name ∧ ¬ IsLoneS model.name) := by
  unfold lookupNames
  split
  · rename_i hnone
    simp [hnone]
  · rename_i hsome
    have hsome : g.identifiers model ≠ [] := hsome
    rw [forall_prop_of_true hsome]
    split
    · rename_i hlookup
      simp only [hlookup, forall_const, List.forall_mem_singleton]
      exact Naming.isIdentifier_singleQuery h.name
    · rename_i hlookup
      simp only [hlookup, reduceCtorEq, false_implies, iff_true, List.forall_mem_map]
      intro identifier hidentifier
      have hmem := (List.mem_filter.mp (property_of_mem_identifiers hidentifier)).1
      rw [Naming.isIdentifier_lookupQuery h.name (h.properties _ hmem), hdigit]
      rfl

/-- **Which derived names are names.**  For a model that passes the rules, all its queries
have names unless its own begins with a digit, or it has a single lookup and its name has
no letter but a lone `s`, if any; an argument of a lookup has one when the property begins
with a letter, and an input of arguments when the operation does not begin with a digit.
Leading underscores do not count. -/
theorem derived_names (h : model.check = .ok ()) :
    ((∀ name ∈ g.queryNames model, isIdentifier name) ↔
        beginsWithDigit model.name = false ∧
          (g.identifiers model ≠ [] → g.config.lookup = .uniqueFilter →
            beginsWithLetter model.name ∧ ¬ IsLoneS model.name)) ∧
      (∀ property ∈ model.properties,
        isIdentifier (camel property.name) = beginsWithLetter property.name) ∧
      ∀ operation ∈ model.operations,
        isIdentifier (Naming.argsType operation.name) = !beginsWithDigit operation.name := by
  have hw := Model.wellFormed_of_check h
  refine ⟨?_, fun property hproperty => ?_, fun operation hoperation =>
    Naming.isIdentifier_argsType (hw.operations operation hoperation)⟩
  · rw [queryNames, List.forall_mem_cons, List.forall_mem_cons,
      Naming.isIdentifier_collectionQuery hw.name, Naming.isIdentifier_metaQuery hw.name,
      and_self_left, Bool.not_eq_true']
    exact and_congr_right fun hdigit => lookupNames_isIdentifier_iff hw hdigit
  · have hparts := isNamePart_of_mem (hw.properties property hproperty)
    rw [isIdentifier_camel hparts, front_any_letter hparts]

/-- A model whose name is a lone `s`, with members whose names begin with digits. -/
def lone : Model where
  name := "S"
  properties := [⟨"_1", .scalar .uniqueIdentifier { isPrimaryKey := true }⟩]
  operations := [{ name := "_2", returns := .scalar .boolean {} }]

theorem derived_names_lone : lone.check = .ok () ∧
    (¬ ∀ name ∈ ({} : Generator).queryNames lone, isIdentifier name) ∧
      isIdentifier (camel "_1") = false ∧ isIdentifier (Naming.argsType "_2") = false := by
  obtain ⟨hqueries, hproperties, hoperations⟩ := @derived_names {} lone rfl
  refine ⟨rfl, fun h => ?_, ?_, ?_⟩
  · exact ((hqueries.mp h).2 (by decide) rfl).2 ⟨0, 'S', by decide, rfl⟩
  · exact (hproperties ⟨"_1", _⟩ (List.mem_singleton_self _)).trans (by decide)
  · have hargs := hoperations _ (List.mem_singleton_self _)
    rw [(by decide : beginsWithDigit "_2" = true)] at hargs
    exact hargs

end Generator
end Generate
end EntitySdl
